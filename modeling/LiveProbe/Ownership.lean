/-
LiveProbe/Ownership.lean

Who owns a uprobe.

The loader holds a site until it is asked to detach it, and the agent asks only
for sites it knows: those it counts as active and those whose detach is pending.
A site the loader holds and the agent has forgotten is never detached while the
agent lives.

The agent forgets none as long as an attach request that is performed is also
answered, no loader takes the place of another between the check of its identity
and an attach request of the same cycle, and no preflight is cut short by a
shutdown.  The attach request is the one whose failure the agent takes for a
refusal: for a counter read and for a detach it keeps the site pending.
-/
import LiveProbe.AgentCycle

namespace NativeAgent

/-- The agent can still detach every site the loader holds. -/
def World.Owned (w : World) : Prop :=
  ∀ site ∈ w.loader.links, site ∈ w.active.keys ∨ site ∈ w.pendingDetaches

/-- What a cycle must not do to the agent that meets this loader at its start. -/
structure Cycle.Kind (identity : LoaderIdentity) (cycle : Cycle) : Prop where
  /-- an attach request that is performed is answered -/
  answered : ∀ n, (cycle.call n).admitted = true → (cycle.call n).transport ≠ .unanswered
  /-- after another loader has come nothing is attached in this cycle -/
  stays : ∀ n other, (cycle.call n).restart = some other →
    other = identity ∨ ∀ m, n ≤ m → (cycle.call m).admitted = false
  runs : ∀ n, (cycle.call n).shutdown = false

/-- The states at the ends of the cycles of a run in which each cycle is kind. -/
inductive KindRun (config : SafetyConfig) : World → Prop
  | start (identity : LoaderIdentity) : KindRun config (.start identity)
  | cycle {w : World} {cycle : Cycle} (run : KindRun config w)
      (kind : cycle.Kind (w.begin cycle).loader.identity) : KindRun config (w.reconcile config cycle)

/-! ### The invariant within a cycle -/

/-- Every held site is owned or in flight, and whoever holds one is the loader
the agent knows. -/
structure Holding (inFlight : List String) (w : World) : Prop where
  owned : ∀ site ∈ w.loader.links, site ∈ w.active.keys ∨ site ∈ w.pendingDetaches ∨ site ∈ inFlight
  known : ∀ site ∈ w.loader.links, w.loaderIdentity = some w.loader.identity

/-- Within a cycle an agent that has the loader has checked it, and unless it is
still that loader nothing more is attached. -/
structure Cycle.Holding (cycle : Cycle) (identity : LoaderIdentity) (inFlight : List String) (w : World) :
    Prop extends NativeAgent.Holding inFlight w where
  checked : w.loaderAvailable = true → w.loaderIdentity = some identity
  stays : w.loader.identity = identity ∨ ∀ n, w.calls ≤ n → (cycle.call n).admitted = false

section
variable {cycle : Cycle} {identity : LoaderIdentity} {inFlight : List String} {w w' : World}

/-- Bookkeeping that lets go of no held site. -/
theorem Cycle.Holding.update {inFlight' : List String} (h : cycle.Holding identity inFlight w)
    (hloader : w'.loader = w.loader) (hcalls : w'.calls = w.calls)
    (hidentity : w'.loaderIdentity = w.loaderIdentity)
    (havailable : w'.loaderAvailable = true → w.loaderAvailable = true)
    (howned : ∀ site ∈ w.loader.links,
      (site ∈ w.active.keys ∨ site ∈ w.pendingDetaches ∨ site ∈ inFlight) →
        site ∈ w'.active.keys ∨ site ∈ w'.pendingDetaches ∨ site ∈ inFlight') :
    cycle.Holding identity inFlight' w' where
  owned := by
    intro site hsite
    rw [hloader] at hsite
    exact howned site hsite (h.owned site hsite)
  known := by
    intro site hsite
    rw [hloader] at hsite
    rw [hidentity, hloader]
    exact h.known site hsite
  checked := by
    intro ha
    rw [hidentity]
    exact h.checked (havailable ha)
  stays := by
    rw [hloader, hcalls]
    exact h.stays

/-- The process a call meets is still the checked one, or nothing more is attached. -/
theorem Cycle.Holding.process (h : cycle.Holding identity inFlight w) (kind : cycle.Kind identity) :
    ((cycle.call w.calls).process w.loader).identity = identity ∨
      ∀ n, w.calls ≤ n → (cycle.call n).admitted = false := by
  unfold Call.process
  cases hr : (cycle.call w.calls).restart with
  | none => exact h.stays
  | some other =>
    rcases kind.stays w.calls other hr with rfl | hnone
    · exact .inl rfl
    · exact .inr hnone

/-- A call that attaches nothing. -/
theorem Cycle.Holding.call {request : LoaderRequest} (h : cycle.Holding identity inFlight w)
    (kind : cycle.Kind identity)
    (hlinks : ∀ site ∈ (w.call cycle request).1.loader.links,
      (cycle.call w.calls).process w.loader = w.loader ∧ site ∈ w.loader.links) :
    cycle.Holding identity inFlight (w.call cycle request).1 where
  owned := fun site hsite => h.owned site (hlinks site hsite).2
  known := by
    intro site hsite
    obtain ⟨hprocess, hheld⟩ := hlinks site hsite
    show w.loaderIdentity = some ((cycle.call w.calls).perform request w.loader).1.identity
    rw [Call.perform_identity, hprocess]
    exact h.known site hheld
  checked := h.checked
  stays := by
    show ((cycle.call w.calls).perform request w.loader).1.identity = identity ∨ _
    rw [Call.perform_identity]
    exact (h.process kind).imp_right fun hnone n hn => hnone n (Nat.le_of_succ_le hn)

/-- A request that is no attach request attaches nothing. -/
theorem Cycle.Holding.ask (h : cycle.Holding identity inFlight w) (kind : cycle.Kind identity)
    (request : LoaderRequest) (hrequest : ∀ siteId r, request ≠ .attach siteId r) :
    cycle.Holding identity inFlight (w.call cycle request).1 :=
  h.call kind fun _ hsite => (Call.perform_links hsite).resolve_right
    fun ⟨_, _, r, hr⟩ => hrequest _ r hr

theorem Cycle.Holding.detach (h : cycle.Holding identity inFlight w) (kind : cycle.Kind identity)
    (siteId : String) : cycle.Holding identity inFlight (w.detachSucceeded cycle siteId).1 :=
  h.ask kind (.detach siteId) (by simp)

/-- A detached site is not held any more. -/
theorem notMem_of_detachSucceeded {siteId : String} (h : (w.detachSucceeded cycle siteId).2 = true) :
    siteId ∉ (w.detachSucceeded cycle siteId).1.loader.links :=
  Call.notMem_of_detached (of_decide_eq_true h)

/-- An attach request that was refused or lost has attached nothing. -/
theorem Cycle.Holding.refused {siteId : String} {request : AttachRequest}
    (h : cycle.Holding identity inFlight w) (kind : cycle.Kind identity)
    (hresponse : (w.call cycle (.attach siteId request)).2 ≠ some .attached) :
    cycle.Holding identity inFlight (w.call cycle (.attach siteId request)).1 :=
  h.call kind fun _ hsite => Call.links_of_not_attached hresponse (kind.answered w.calls) hsite

/-- An attached site is in flight, and it is the checked loader that holds it. -/
theorem Cycle.Holding.attach {siteId : String} {request : AttachRequest}
    (h : cycle.Holding identity [] w) (kind : cycle.Kind identity) (havailable : w.loaderAvailable = true) :
    cycle.Holding identity [siteId] (w.call cycle (.attach siteId request)).1 where
  owned := by
    intro site hsite
    rcases Call.perform_links hsite with ⟨_, hheld⟩ | ⟨_, _, r, hr⟩
    · rcases h.owned site hheld with hactive | hpending | hnone
      · exact .inl hactive
      · exact .inr (.inl hpending)
      · exact absurd hnone List.not_mem_nil
    · cases hr
      exact .inr (.inr List.mem_cons_self)
  known := by
    intro site hsite
    show w.loaderIdentity = some ((cycle.call w.calls).perform _ w.loader).1.identity
    rw [Call.perform_identity]
    rcases Call.perform_links hsite with ⟨hprocess, hheld⟩ | ⟨_, hadmitted, _⟩
    · rw [hprocess]
      exact h.known site hheld
    · rcases h.process kind with hsame | hnone
      · rw [hsame]
        exact h.checked havailable
      · rw [hnone w.calls le_rfl] at hadmitted
        cases hadmitted
  checked := h.checked
  stays := by
    show ((cycle.call w.calls).perform _ w.loader).1.identity = identity ∨ _
    rw [Call.perform_identity]
    exact (h.process kind).imp_right fun hnone n hn => hnone n (Nat.le_of_succ_le hn)

/-! ### Before attaching -/

/-- Between two cycles: nothing is in flight. -/
theorem Holding.begin (h : Holding [] w) : Holding [] (w.begin cycle) := by
  unfold World.begin
  cases cycle.restarted with
  | none => exact ⟨h.owned, h.known⟩
  | some other =>
    exact ⟨fun _ hsite => absurd hsite List.not_mem_nil, fun _ hsite => absurd hsite List.not_mem_nil⟩

/-- A site that is held when the loader is checked is held by the loader the
agent knows, so what is forgotten of another one is not held. -/
theorem Holding.verifyLoader (h : Holding [] w) (kind : cycle.Kind w.loader.identity) :
    cycle.Holding w.loader.identity [] (w.verifyLoader cycle) := by
  have hstays : (w.call cycle .getInfo).1.loader.identity = w.loader.identity ∨
      ∀ n, w.calls + 1 ≤ n → (cycle.call n).admitted = false := by
    show ((cycle.call w.calls).perform .getInfo w.loader).1.identity = w.loader.identity ∨ _
    rw [Call.perform_identity]
    unfold Call.process
    cases hr : (cycle.call w.calls).restart with
    | none => exact .inl rfl
    | some other =>
      exact (kind.stays w.calls other hr).imp_right fun hnone n hn => hnone n (Nat.le_of_succ_le hn)
  have hlinks : ∀ site ∈ (w.call cycle .getInfo).1.loader.links,
      (w.call cycle .getInfo).1.loader.identity = w.loader.identity ∧ site ∈ w.loader.links := by
    intro site hsite
    obtain ⟨hprocess, hheld⟩ := (Call.perform_links hsite).resolve_right (by simp)
    refine ⟨?_, hheld⟩
    show ((cycle.call w.calls).perform .getInfo w.loader).1.identity = w.loader.identity
    rw [Call.perform_identity, hprocess]
  unfold World.verifyLoader
  split
  · dsimp only
    split
    · split
      · exact {
          owned := fun site hsite => h.owned site (hlinks site hsite).2
          known := fun site hsite => congrArg some (hlinks site hsite).1.symm
          checked := fun _ => rfl
          stays := hstays }
      · rename_i hother
        have hnone : ∀ site, site ∉ (w.call cycle .getInfo).1.loader.links := by
          intro site hsite
          refine hother ?_
          rw [h.known site (hlinks site hsite).2]
          simp
        exact {
          owned := fun site hsite => absurd hsite (hnone site)
          known := fun site hsite => absurd hsite (hnone site)
          checked := fun _ => rfl
          stays := hstays }
    · exact {
        owned := fun site hsite => h.owned site (hlinks site hsite).2
        known := fun site hsite => (hlinks site hsite).1 ▸ h.known site (hlinks site hsite).2
        checked := fun ha => nomatch ha
        stays := hstays }
  · rename_i hdue
    exact {
      owned := h.owned
      known := h.known
      checked := fun ha => absurd (.inl ha) hdue
      stays := .inl rfl }

/-- A site that is detached may be forgotten. -/
theorem Cycle.Holding.forget {siteId : String} (h : cycle.Holding identity inFlight w)
    (kind : cycle.Kind identity) (hdetach : (w.detachSucceeded cycle siteId).2 = true)
    (hloader : w'.loader = (w.detachSucceeded cycle siteId).1.loader)
    (hcalls : w'.calls = w.calls + 1) (hidentity : w'.loaderIdentity = w.loaderIdentity)
    (havailable : w'.loaderAvailable = w.loaderAvailable)
    (hactive : ∀ site, site ≠ siteId → site ∈ w.active.keys → site ∈ w'.active.keys)
    (hpending : ∀ site, site ≠ siteId → site ∈ w.pendingDetaches → site ∈ w'.pendingDetaches) :
    cycle.Holding identity inFlight w' := by
  refine (h.detach kind siteId).update hloader hcalls hidentity (fun ha => havailable ▸ ha) ?_
  intro site hsite howned
  have hne : site ≠ siteId := by
    rintro rfl
    exact notMem_of_detachSucceeded hdetach hsite
  exact howned.imp (hactive site hne) (Or.imp_left (hpending site hne))

theorem Cycle.Holding.retryDetach (h : cycle.Holding identity inFlight w) (kind : cycle.Kind identity)
    (siteId : String) : cycle.Holding identity inFlight (w.retryDetach cycle siteId) := by
  unfold World.retryDetach
  dsimp only
  split
  · rename_i hdetach
    refine h.forget kind hdetach rfl rfl rfl rfl ?_ ?_
    · intro site hne hactive
      exact JsMap.mem_keys_delete.mpr ⟨hne, hactive⟩
    · intro site hne hpending
      exact List.mem_filter.mpr ⟨hpending, decide_eq_true hne⟩
  · exact h.detach kind siteId

theorem Cycle.Holding.retryPendingDetaches (h : cycle.Holding identity inFlight w)
    (kind : cycle.Kind identity) : cycle.Holding identity inFlight (w.retryPendingDetaches cycle) := by
  unfold World.retryPendingDetaches
  split
  · exact List.foldlRecOn _ _ h fun _ hb siteId _ => hb.retryDetach kind siteId
  · exact h

theorem Cycle.Holding.detachStale (h : cycle.Holding identity inFlight w) (kind : cycle.Kind identity)
    (desired : Desired) : cycle.Holding identity inFlight (w.detachStale cycle desired) := by
  refine List.foldlRecOn _ _ h fun b hb siteId _ => ?_
  unfold World.detachStaleSite
  split
  · dsimp only
    split
    · rename_i hdetach
      refine hb.forget kind hdetach rfl rfl rfl rfl ?_ (fun _ _ hpending => hpending)
      intro site hne hactive
      exact JsMap.mem_keys_delete.mpr ⟨hne, hactive⟩
    · exact hb.detach kind siteId
  · exact hb

theorem Cycle.Holding.prepare (h : NativeAgent.Holding [] w)
    (kind : cycle.Kind (w.begin cycle).loader.identity) :
    cycle.Holding (w.begin cycle).loader.identity [] (w.prepare cycle).1 := by
  have hretried := (h.begin.verifyLoader kind).retryPendingDetaches kind
  have hplanned : cycle.Holding (w.begin cycle).loader.identity []
      ((((w.begin cycle).verifyLoader cycle).retryPendingDetaches cycle).plan cycle).1 :=
    hretried.update rfl rfl rfl id fun _ _ howned => howned
  exact hplanned.detachStale kind _

/-! ### Attaching -/

theorem mem_insert_pending {site siteId : String} {pending : List String}
    (h : site ∈ pending ∨ site ∈ [siteId]) : site ∈ pending.insert siteId := by
  rw [List.mem_insert_iff]
  exact h.symm.imp_left List.mem_singleton.mp

/-- A preflight that has been attached is detached or kept pending. -/
theorem Cycle.Holding.finishPreflight {config : SafetyConfig} {site : PlannedSite}
    {target : DiscoveredInstance} (h : cycle.Holding identity [site.preflightId] w)
    (kind : cycle.Kind identity) :
    cycle.Holding identity [] (w.finishPreflight config cycle site target).1 := by
  have hread := h.ask kind (.readCounters (site.preflightRequest target).cookie) (by simp)
  unfold World.finishPreflight
  dsimp only
  split
  · refine hread.update rfl rfl rfl id fun _ _ howned => ?_
    exact howned.imp_right fun hpending => .inl (mem_insert_pending hpending)
  · have hdetached := hread.detach kind site.preflightId
    split
    · rename_i hdetach
      refine hdetached.update rfl rfl rfl id fun held hheld howned => ?_
      have hne : held ≠ site.preflightId := by
        rintro rfl
        exact notMem_of_detachSucceeded hdetach hheld
      exact howned.imp_right fun hpending =>
        .inl (hpending.resolve_right fun hin => hne (List.mem_singleton.mp hin))
    · refine hdetached.update rfl rfl rfl id fun _ _ howned => ?_
      exact howned.imp_right fun hpending => .inl (mem_insert_pending hpending)

theorem Cycle.Holding.preflight {config : SafetyConfig} {site : PlannedSite} {target : DiscoveredInstance}
    (h : cycle.Holding identity [] w) (kind : cycle.Kind identity) (havailable : w.loaderAvailable = true) :
    cycle.Holding identity [] (w.preflight config cycle site target).1 := by
  unfold World.preflight
  split
  · exact h
  · dsimp only
    split
    · rename_i hresponse
      have hnone : (w.call cycle (.attach site.preflightId (site.preflightRequest target))).2
          ≠ some .attached := by
        rw [hresponse]
        simp
      have hrefused := h.refused kind hnone
      exact hrefused.update rfl rfl rfl (fun ha => nomatch ha) fun _ _ howned => howned
    · rw [if_neg (by rw [kind.runs]; simp)]
      exact (h.attach kind havailable).finishPreflight kind
    · rename_i response hne hresponse
      refine h.refused kind ?_
      rw [hresponse]
      exact fun heq => hne (Option.some.inj heq)

theorem World.finishPreflight_available {config : SafetyConfig} {site : PlannedSite}
    {target : DiscoveredInstance} :
    (w.finishPreflight config cycle site target).1.loaderAvailable = w.loaderAvailable := by
  unfold World.finishPreflight
  dsimp only
  split
  · rfl
  · split <;> rfl

/-- A preflight that is not rejected leaves the loader available. -/
theorem World.preflight_available {config : SafetyConfig} {site : PlannedSite} {target : DiscoveredInstance} :
    (w.preflight config cycle site target).2 ≠ .rejected →
      (w.preflight config cycle site target).1.loaderAvailable = w.loaderAvailable := by
  unfold World.preflight
  split
  · exact fun _ => rfl
  · dsimp only
    split
    · exact fun hne => absurd rfl hne
    · split
      · exact fun _ => rfl
      · exact fun _ => World.finishPreflight_available
    · exact fun hne => absurd rfl hne

/-- A site that is attached is active under its own id. -/
theorem Cycle.Holding.attachPlanned {siteId : String} {site : PlannedSite} {target : DiscoveredInstance}
    {sampleEvery : ℕ} (h : cycle.Holding identity [] w) (kind : cycle.Kind identity)
    (havailable : w.loaderAvailable = true) (hkey : siteId = site.siteId) :
    cycle.Holding identity [] (w.attachPlanned cycle siteId site target sampleEvery) := by
  unfold World.attachPlanned
  dsimp only
  split
  · refine (h.attach kind havailable).update rfl rfl rfl id fun held _ howned => ?_
    rcases howned with hactive | hpending | hin
    · exact .inl (JsMap.mem_keys_set.mpr (.inr hactive))
    · exact .inr (.inl hpending)
    · exact .inl (JsMap.mem_keys_set.mpr (.inl (hkey ▸ List.mem_singleton.mp hin)))
  · rename_i hresponse
    have hrefused := h.refused kind (by rw [hresponse]; simp)
    exact hrefused.update rfl rfl rfl (fun ha => nomatch ha) fun _ _ howned => howned
  · rename_i response hne hresponse
    refine h.refused kind ?_
    rw [hresponse]
    exact fun heq => hne (Option.some.inj heq)

theorem Cycle.Holding.attachSite (config : SafetyConfig) {e : String × PlannedSite × DiscoveredInstance}
    (h : cycle.Holding identity [] w) (kind : cycle.Kind identity) (hkey : e.1 = e.2.1.siteId) :
    cycle.Holding identity [] (w.attachSite config cycle e).1 := by
  unfold World.attachSite
  split
  · exact h
  · rename_i hskips
    have havailable : w.loaderAvailable = true := by
      simp only [World.skips, Bool.or_eq_true, not_or, Bool.not_eq_true', Bool.not_eq_false] at hskips
      exact hskips.1.1.2
    dsimp only
    split
    · exact h.preflight kind havailable
    · exact h.preflight kind havailable
    · rename_i sampleEvery happroved
      refine (h.preflight kind havailable).attachPlanned kind ?_ hkey
      rw [World.preflight_available (by rw [happroved]; simp)]
      exact havailable

theorem Cycle.Holding.attachSites (config : SafetyConfig)
    (es : List (String × PlannedSite × DiscoveredInstance)) (h : cycle.Holding identity [] w)
    (kind : cycle.Kind identity) (hkeys : ∀ e ∈ es, e.1 = e.2.1.siteId) :
    cycle.Holding identity [] (World.attachSites config cycle es w).1 := by
  induction es generalizing w with
  | nil => exact h
  | cons e es ih =>
    have hturn := h.attachSite config kind (hkeys e List.mem_cons_self)
    unfold World.attachSites
    dsimp only
    split
    · exact hturn
    · exact ih hturn fun e' he' => hkeys e' (List.mem_cons_of_mem e he')

/-! ### Events and counters -/

theorem Cycle.Holding.quiet (h : cycle.Holding identity inFlight w) (hquiet : Quiet w w') :
    cycle.Holding identity inFlight w' :=
  h.update hquiet.loader hquiet.calls hquiet.identity (fun ha => hquiet.available ▸ ha)
    fun site _ howned => howned.imp (hquiet.keys site) (Or.imp_left (hquiet.pending ▸ ·))

theorem Cycle.Holding.pollBatches {batches : ℕ} {o : Observed}
    (h : cycle.Holding identity inFlight o.world) (kind : cycle.Kind identity) :
    cycle.Holding identity inFlight (o.pollBatches cycle batches).world := by
  induction batches generalizing o with
  | zero => exact h
  | succ batches ih =>
    have hpolled := h.ask kind .pollEvents (by simp)
    unfold Observed.pollBatches
    dsimp only
    split
    · exact hpolled
    · rename_i records _ _
      refine ih (List.foldlRecOn (motive := fun o : Observed => cycle.Holding identity inFlight o.world)
        records _ hpolled fun o ho r _ => ?_)
      exact ho.quiet Observed.quiet_record
    · exact hpolled

theorem Cycle.Holding.counter {o : Observed} {siteId : String}
    (h : cycle.Holding identity inFlight o.world) (kind : cycle.Kind identity) :
    cycle.Holding identity inFlight (o.counter cycle siteId).world := by
  unfold Observed.counter
  split
  · exact h
  · rename_i active _
    have hread := h.ask kind (.readCounters active.site.cookie) (by simp)
    dsimp only
    split
    · rename_i counters _
      have hcounted := (hread.quiet (Observed.quiet_countCaptures
        (o := { o with world := (o.world.call cycle (.readCounters active.site.cookie)).1 })
        active counters.captures)).quiet
          (Observed.quiet_setActive siteId { active with lastCaptures := counters.captures })
      split <;> exact hcounted
    · exact hread

theorem Cycle.Holding.terminate {o : Observed} {logicals : List String}
    (h : cycle.Holding identity inFlight o.world) (f : Observed → String → Observed)
    (hf : ∀ o logical, f o logical = o ∨ f o logical = o.terminate logical) :
    cycle.Holding identity inFlight (logicals.foldl f o).world := by
  refine List.foldlRecOn (motive := fun o : Observed => cycle.Holding identity inFlight o.world) logicals _ h
    fun o ho logical _ => ?_
  rcases hf o logical with heq | heq
  · rw [heq]
    exact ho
  · rw [heq]
    exact ho.quiet ⟨rfl, rfl, rfl, rfl, rfl, rfl, fun _ hsite => hsite⟩

/-- A site whose detach fails is kept pending. -/
theorem Cycle.Holding.safetyDetach (h : cycle.Holding identity inFlight w) (kind : cycle.Kind identity)
    (siteId : String) : cycle.Holding identity inFlight (w.safetyDetach cycle siteId) := by
  unfold World.safetyDetach
  dsimp only
  split
  · rename_i hdetach
    refine h.forget kind hdetach rfl rfl rfl rfl ?_ (fun _ _ hpending => hpending)
    intro site hne hactive
    exact JsMap.mem_keys_delete.mpr ⟨hne, hactive⟩
  · split
    · refine (h.detach kind siteId).update rfl rfl rfl id fun _ _ howned => ?_
      exact howned.imp_right (Or.imp_left fun hpending => List.mem_insert_iff.mpr (.inr hpending))
    · exact h.detach kind siteId

theorem Cycle.Holding.observe (h : cycle.Holding identity inFlight w) (kind : cycle.Kind identity) :
    cycle.Holding identity inFlight (w.observe cycle) := by
  have hpolled : cycle.Holding identity inFlight (({ world := w : Observed }).pollEvents cycle).world :=
    h.pollBatches kind
  have hcounted : cycle.Holding identity inFlight
      ((({ world := w : Observed }).pollEvents cycle).readCounters cycle).world := by
    unfold Observed.readCounters
    split
    · exact List.foldlRecOn (motive := fun o : Observed => cycle.Holding identity inFlight o.world) _ _
        hpolled fun o ho siteId _ => ho.counter kind
    · exact hpolled
  have hunsafe : cycle.Holding identity inFlight
      (((({ world := w : Observed }).pollEvents cycle).readCounters cycle).terminateUnsafe cycle).world :=
    hcounted.terminate _ fun _ _ => .inr rfl
  have hhost : cycle.Holding identity inFlight
      ((((({ world := w : Observed }).pollEvents cycle).readCounters cycle).terminateUnsafe cycle).detachHost
        cycle).world := by
    unfold Observed.detachHost
    split <;> exact hunsafe
  unfold World.observe
  refine List.foldlRecOn _ _ (hhost.terminate _ fun o logical => ?_) fun _ hb siteId _ =>
    hb.safetyDetach kind siteId
  split
  · exact .inl rfl
  · exact .inr rfl

/-! ### Runs -/

/-- A site is desired under its own id. -/
def Desired.Keyed (desired : Desired) : Prop := desired.All fun siteId e => siteId = e.1.siteId

theorem DesiredState.next_keyed {s : DesiredState} (h : Desired.Keyed s.cachedDesired) :
    Desired.Keyed (s.next cycle).1.cachedDesired ∧ Desired.Keyed (s.next cycle).2 :=
  DesiredState.next_all (fun _ _ _ _ _ _ _ _ _ _ _ _ => rfl) h

theorem DesiredState.reconcile_cachedDesired (s : DesiredState) :
    (s.reconcile cycle).cachedDesired = s.cachedDesired := by
  unfold DesiredState.reconcile
  cases cycle.discovered <;> rfl

/-- One cycle. -/
theorem Cycle.Holding.reconcile {config : SafetyConfig} (h : NativeAgent.Holding [] w)
    (hkeyed : Desired.Keyed w.state.cachedDesired) (kind : cycle.Kind (w.begin cycle).loader.identity) :
    cycle.Holding (w.begin cycle).loader.identity [] (w.reconcile config cycle) := by
  have hdesired : Desired.Keyed (w.prepare cycle).2 := by
    rw [World.prepare_desired]
    exact (DesiredState.next_keyed (by rw [DesiredState.reconcile_cachedDesired]; exact hkeyed)).2
  have hretained : cycle.Holding (w.begin cycle).loader.identity []
      ((w.prepare cycle).1.retainDesired (w.prepare cycle).2) :=
    (Cycle.Holding.prepare h kind).update rfl rfl rfl id fun _ _ howned => howned
  have hattached := hretained.attachSites config
    ((cycle.arrange ((w.prepare cycle).1.retainDesired (w.prepare cycle).2).calls).run
      (w.prepare cycle).2.entries) kind
    fun e he => hdesired e.1 e.2 (JsMap.get?_eq_some_iff.mpr ((cycle.arrange _).mem_run.mp he))
  unfold World.reconcile
  dsimp only
  split
  · exact hattached
  · exact hattached.observe kind

theorem KindRun.holding {config : SafetyConfig} (run : KindRun config w) :
    NativeAgent.Holding [] w ∧ Desired.Keyed w.state.cachedDesired := by
  induction run with
  | start identity =>
    exact ⟨⟨fun _ hsite => absurd hsite List.not_mem_nil, fun _ hsite => absurd hsite List.not_mem_nil⟩,
      JsMap.All.empty⟩
  | @cycle w cycle _ kind ih =>
    refine ⟨(Cycle.Holding.reconcile ih.1 ih.2 kind).toHolding, ?_⟩
    rw [World.state_reconcile]
    exact (DesiredState.next_keyed (by rw [DesiredState.reconcile_cachedDesired]; exact ih.2)).1

/-- In every run of kind cycles the agent forgets no site the loader holds. -/
theorem KindRun.owned {config : SafetyConfig} (run : KindRun config w) : w.Owned := by
  intro site hsite
  rcases run.holding.1.owned site hsite with hactive | hpending | hnone
  · exact .inl hactive
  · exact .inr hpending
  · exact absurd hnone List.not_mem_nil

end

/-! ### A lost answer -/

def shopInstance : DiscoveredInstance where
  instanceId := "shop-7-1"
  serviceId := "shop"
  buildId := "b1"
  pid := 7

def shopCounter : ProbeAssignment where
  id := "p1"
  version := 1
  kind := "counter"
  hitLimit := 2
  ttlSeconds := 60
  conditional := false

/-- A cycle for one counter in one process, with these calls. -/
def counterCycle (version : ℕ) (call : ℕ → Call) : Cycle where
  restarted := none
  loaderRetryDue := true
  call := call
  discovered := some [shopInstance]
  poll := fun _ _ => some {
    version
    assignments := [{ instanceId := "shop-7-1", buildId := "b1", probes := [shopCounter] }] }
  symbols := {
    debugArtifact := fun _ => .ok (some "shop.debug")
    planSites := fun _ probe _ => .ok [{
      probe, siteId := "", cookie := 17, generation := 1
      operations := [], slotPaths := [], slotKinds := [], unavailable := [] }] }
  hostRateExceeded := false
  arrange := fun _ => { run := fun l => l, perm := fun l => .refl l }

def oneAttachment : SafetyConfig where
  maxAttachments := 1
  preflightSeconds := 1
  perProbeRawHitsPerSecond := 100

/-- When every call is answered the counter is attached and active. -/
theorem counterCycle_owned :
    ((World.start ⟨1, 1⟩).reconcile oneAttachment (counterCycle 1 fun _ => {})).loader.links
        = ["p1:1:shop-7-1:b1:0"]
      ∧ ((World.start ⟨1, 1⟩).reconcile oneAttachment (counterCycle 1 fun _ => {})).Owned :=
  ⟨by decide, KindRun.owned ((KindRun.start ⟨1, 1⟩).cycle {
    answered := fun _ _ h => nomatch h
    stays := fun _ _ h => nomatch h
    runs := fun _ => rfl })⟩

/-- When the answer to the attach request is lost the loader holds a site the
agent does not know. -/
theorem lostAttach_not_owned : ¬ ∀ w, AgentRun oneAttachment w → w.Owned := by
  intro h
  have howned := h _ ((AgentRun.start ⟨1, 1⟩).cycle
    (counterCycle 1 fun n => { transport := if n = 1 then .unanswered else .answered }))
  exact absurd (howned "p1:1:shop-7-1:b1:0" (by decide)) (by decide)

end NativeAgent
