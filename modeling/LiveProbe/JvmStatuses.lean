/-
LiveProbe/JvmStatuses.lean

The lifecycle statuses that the JVM bridge reports of its probes.

A suspended status is the last one of an active probe only while one of its
breakpoint requests is disabled (`Honest`): a disabled request is enabled by
`reenable` alone, and that reports the probe as armed.  Two steps can break this.
`afterResume` reports a hit over the budget after the lock was given up, so the
request may be enabled again by then, or the probe may be another one; and a
reconciliation can give the name of a suspended probe to a new one that arms
nothing.  In runs in which neither happens every state is honest
(`truthful_statuses`).
-/
import LiveProbe.JvmSuspension

namespace JvmBridge

/-! ### The last status -/

/-- The statuses of the life of a probe. -/
def isLifecycle : ProbeStatusName → Bool
  | .armed | .suspended | .hitLimitReached => true
  | .error | .expired => false

/-- The last lifecycle status that was reported under an identifier. -/
def lastLifecycle (reported : List StatusEvent) (id : JsString) : Option ProbeStatusName :=
  ((reported.filter fun e => e.probeId = id && isLifecycle e.status).getLast?).map (·.status)

theorem lastLifecycle_append (reported : List StatusEvent) (e : StatusEvent) (id : JsString) :
    lastLifecycle (reported ++ [e]) id =
      if e.probeId = id ∧ isLifecycle e.status = true then some e.status else lastLifecycle reported id := by
  unfold lastLifecycle
  rw [List.filter_append, List.filter_singleton]
  by_cases h : e.probeId = id ∧ isLifecycle e.status = true
  · have hkept : (decide (e.probeId = id) && isLifecycle e.status) = true := by
      rw [decide_eq_true h.1, h.2]
      rfl
    rw [if_pos h, hkept, cond_true, List.getLast?_append]
    rfl
  · have hdropped : (decide (e.probeId = id) && isLifecycle e.status) = false := by
      rw [← Bool.not_eq_true, Bool.and_eq_true, decide_eq_true_eq]
      exact h
    rw [if_neg h, hdropped, cond_false, List.append_nil]

/-- Another status does not make a suspended one the last. -/
theorem lastLifecycle_of_append {reported : List StatusEvent} {e : StatusEvent} {id : JsString}
    (he : e.status ≠ .suspended) (h : lastLifecycle (reported ++ [e]) id = some .suspended) :
    lastLifecycle reported id = some .suspended ∧ ¬ (e.probeId = id ∧ isLifecycle e.status = true) := by
  rw [lastLifecycle_append] at h
  split at h
  · exact absurd (Option.some.inj h) he
  · next hother => exact ⟨h, hother⟩

namespace ProbeManager

variable {jdi : Jdi} {s t : ProbeManager} {o r : ℕ} {m : ManagedProbe}

/-! ### Honesty -/

/-- Some breakpoint request of the probe is disabled. -/
def HasDisabled (s : ProbeManager) (m : ManagedProbe) : Prop :=
  ∃ r ∈ m.requests, ∃ q, s.requests[r]? = some q ∧ q.enabled = false

/-- Requests are those of their probes, and the status of an active probe is
suspended only while one of its requests is disabled. -/
structure Honest (s : ProbeManager) : Prop where
  owned : ∀ (o : ℕ) m, s.objects[o]? = some m → ∀ r ∈ m.requests, ∃ q, s.requests[r]? = some q ∧ q.managed = o
  truthful : ∀ (o : ℕ) m, s.objects[o]? = some m → m.active = true → m.completed = false →
    lastLifecycle s.reported m.definition.id = some .suspended → s.HasDisabled m

theorem Honest.start (limiter : RateLimiter) : Honest { rateLimiter := limiter } where
  owned := fun _ _ h => by cases h
  truthful := fun _ _ h => by cases h

/-- What honesty is about in a probe. -/
def face (m : ManagedProbe) : (Definition × Bool × Bool) × List ℕ := (role m, m.requests)

/-- A step that it is not about. -/
theorem Honest.alike (h : Honest s) (hr : t.requests = s.requests) (he : t.reported = s.reported)
    (ho : t.objects.map face = s.objects.map face) : Honest t := by
  have hbefore : ∀ (o : ℕ) m, t.objects[o]? = some m → ∃ m₀, s.objects[o]? = some m₀ ∧ face m₀ = face m := by
    intro o m hm
    have hmap : (t.objects[o]?).map face = (s.objects[o]?).map face := by
      rw [← List.getElem?_map, ho, List.getElem?_map]
    rw [hm] at hmap
    exact Option.map_eq_some_iff.mp hmap.symm
  constructor
  · intro o m hm r hmem
    obtain ⟨m₀, hm₀, heq⟩ := hbefore o m hm
    rw [hr]
    refine h.owned o m₀ hm₀ r ?_
    rw [show m₀.requests = m.requests from congrArg (·.2) heq]
    exact hmem
  · intro o m hm hactive hopen hlast
    obtain ⟨m₀, hm₀, heq⟩ := hbefore o m hm
    simp only [face, role, Prod.mk.injEq] at heq
    obtain ⟨⟨hdefinition, hactive₀, hcompleted₀⟩, hrequests⟩ := heq
    rw [he, ← hdefinition] at hlast
    obtain ⟨r, hmem, q, hq, hoff⟩ :=
      h.truthful o m₀ hm₀ (hactive₀.trans hactive) (hcompleted₀.trans hopen) hlast
    refine ⟨r, ?_, q, ?_, hoff⟩
    · rw [← hrequests]
      exact hmem
    · rw [hr]
      exact hq

theorem face_update {f : ManagedProbe → ManagedProbe} (hf : ∀ m, face (f m) = face m) (o : ℕ)
    (s : ProbeManager) : (s.update o f).objects.map face = s.objects.map face := by
  apply List.ext_getElem?
  intro i
  rw [List.getElem?_map, List.getElem?_map, update, List.getElem?_modify]
  rcases s.objects[i]? with - | m
  · rfl
  · show some (face (if o = i then f m else m)) = some (face m)
    split
    · rw [hf]
    · rfl

theorem Honest.update (h : Honest s) {f : ManagedProbe → ManagedProbe} (hf : ∀ m, face (f m) = face m) (o : ℕ) :
    Honest (s.update o f) :=
  h.alike rfl rfl (face_update hf o s)

/-- Disabling requests keeps a manager honest. -/
theorem Honest.quieter (h : Honest s) {requests : List BreakpointRequest}
    (hquiet : Quieter s.requests requests) : Honest { s with requests } := by
  constructor
  · intro o m hm r hr
    obtain ⟨q, hq, hown⟩ := h.owned o m hm r hr
    obtain ⟨q', hq', hsame, -⟩ := hquiet.of_before hq
    exact ⟨q', hq', hsame.trans hown⟩
  · intro o m hm hactive hopen hlast
    obtain ⟨r, hr, q, hq, hoff⟩ := h.truthful o m hm hactive hopen hlast
    obtain ⟨q', hq', -, hon⟩ := hquiet.of_before hq
    refine ⟨r, hr, q', hq', ?_⟩
    rw [← Bool.not_eq_true]
    intro he
    rw [hon he] at hoff
    cases hoff

/-- So does any report but that of a suspension. -/
theorem Honest.report (h : Honest s) (probeId : JsString) {status : ProbeStatusName}
    (hstatus : status ≠ .suspended) (detail : Option JsString) : Honest (s.report probeId status detail) := by
  refine ⟨h.owned, fun o m hm hactive hopen hlast => ?_⟩
  exact h.truthful o m hm hactive hopen (lastLifecycle_of_append hstatus hlast).1

/-- A probe that is let go, or gets more requests of its own. -/
theorem Honest.set (h : Honest s) (hm : s.objects[o]? = some m) {m' : ManagedProbe} (count : ℕ)
    (hdefinition : m'.definition = m.definition)
    (howned : ∀ r ∈ m'.requests, ∃ q, s.requests[r]? = some q ∧ q.managed = o)
    (hkept : m'.active = true → m'.completed = false →
      m.active = true ∧ m.completed = false ∧ ∀ r ∈ m.requests, r ∈ m'.requests) :
    Honest { s with objects := s.objects.set o m', suspendedRequests := count } := by
  constructor
  · intro k n hn
    rcases getElem?_set_cases hm hn with ⟨rfl, rfl⟩ | hn
    · exact howned
    · exact h.owned k n hn
  · intro k n hn hactive hopen hlast
    rcases getElem?_set_cases hm hn with ⟨rfl, rfl⟩ | hn
    · obtain ⟨hactive₀, hopen₀, hsub⟩ := hkept hactive hopen
      rw [hdefinition] at hlast
      obtain ⟨r, hr, hoff⟩ := h.truthful k m hm hactive₀ hopen₀ hlast
      exact ⟨r, hsub r hr, hoff⟩
    · exact h.truthful k n hn hactive hopen hlast

/-! ### Letting go -/

theorem Honest.retire (h : Honest s) (jdi : Jdi) (hm : s.objects[o]? = some m) {f : ManagedProbe → ManagedProbe}
    (hdefinition : (f m).definition = m.definition) (hretired : (f m).active = false ∨ (f m).completed = true) :
    Honest (((s.update o f).disableAll jdi o).retireRequests jdi o) := by
  obtain ⟨requests, hquiet, heq⟩ := retire_eq jdi hm f
  rw [heq]
  refine (h.quieter hquiet).set hm _ hdefinition (fun r hr => absurd hr List.not_mem_nil) fun hon hopen => ?_
  rcases hretired with hoff | hdone
  · exact absurd (hoff.symm.trans hon) Bool.false_ne_true
  · exact absurd (hopen.symm.trans hdone) Bool.false_ne_true

theorem Honest.uninstall (h : Honest s) (jdi : Jdi) (o : ℕ) : Honest (s.uninstall jdi o) := by
  rcases hm : s.objects[o]? with - | m
  · rw [uninstall_of_none jdi hm]
    exact h
  · exact h.retire jdi hm (f := fun m => { m with active := false }) rfl (.inl rfl)

theorem Honest.completeMatchingLimit (h : Honest s) (jdi : Jdi) (o : ℕ) :
    Honest (s.completeMatchingLimit jdi o) := by
  unfold ProbeManager.completeMatchingLimit
  rcases hm : s.objects[o]? with - | m
  · exact h
  dsimp only
  split
  · exact h
  · have hretired := h.retire jdi hm (f := fun m => { m with completed := true }) rfl (.inr rfl)
    exact @Honest.report _ hretired m.definition.id .hitLimitReached (by decide) none

/-! ### Arming -/

/-- The probe gets a request that nobody had, enabled. -/
theorem Honest.place (h : Honest s) {q : BreakpointRequest} (hq : s.requests[r]? = some q) (hown : q.managed = o)
    (hfree : ∀ (k : ℕ) m, s.objects[k]? = some m → r ∉ m.requests) : Honest (s.place o r) := by
  -- the other requests are as they were
  have henabled : Honest (s.setEnabled r true) := by
    constructor
    · intro k m hm i hi
      exact managed_setEnabled s r (h.owned k m hm i hi)
    · intro k m hm hactive hopen hlast
      obtain ⟨i, hi, hoff⟩ := h.truthful k m hm hactive hopen hlast
      exact ⟨i, hi, disabled_setEnabled (fun heq => hfree k m hm (heq ▸ hi)) hoff⟩
  rcases hm : s.objects[o]? with - | m
  · have hlen : s.objects.length ≤ o := List.getElem?_eq_none_iff.mp hm
    rw [ProbeManager.place, ProbeManager.update, show (s.setEnabled r true).objects = s.objects from rfl,
      List.modify_eq_self hlen]
    exact henabled
  · have hset := @Honest.set _ _ _ henabled hm { m with requests := m.requests ++ [r] } s.suspendedRequests rfl ?_ ?_
    · rw [ProbeManager.place, update_eq (s := s.setEnabled r true) hm]
      exact hset
    · intro i hi
      rcases List.mem_append.mp hi with hi | hi
      · exact henabled.owned o m hm i hi
      · rw [List.mem_singleton.mp hi]
        exact managed_setEnabled s r ⟨q, hq, hown⟩
    · exact fun hactive hopen => ⟨hactive, hopen, fun i hi => List.mem_append_left _ hi⟩

theorem Honest.create (h : Honest s) (o : ℕ) : Honest { s with requests := s.requests ++ [{ managed := o }] } := by
  have hold : ∀ (r : ℕ) q, s.requests[r]? = some q → (s.requests ++ [{ managed := o }])[r]? = some q := by
    intro r q hq
    rw [List.getElem?_append_left (List.getElem?_eq_some_iff.mp hq).1]
    exact hq
  constructor
  · intro k m hm r hr
    obtain ⟨q, hq, hown⟩ := h.owned k m hm r hr
    exact ⟨q, hold r q hq, hown⟩
  · intro k m hm hactive hopen hlast
    obtain ⟨r, hr, q, hq, hoff⟩ := h.truthful k m hm hactive hopen hlast
    exact ⟨r, hr, q, hold r q hq, hoff⟩

theorem Honest.armLocation (h : Honest s) (jdi : Jdi) (o : ℕ) (key : JsString) :
    Honest (s.armLocation jdi o key).1 := by
  unfold ProbeManager.armLocation
  split
  · exact h
  dsimp only
  have hkey : Honest (s.update o fun m => { m with locationKeys := m.locationKeys ++ [key] }) :=
    h.update (f := fun m => { m with locationKeys := m.locationKeys ++ [key] }) (fun m => rfl) o
  have hlen : (s.update o fun m => { m with locationKeys := m.locationKeys ++ [key] }).requests = s.requests := rfl
  generalize s.update o (fun m => { m with locationKeys := m.locationKeys ++ [key] }) = u at hkey hlen ⊢
  split
  · exact hkey
  split
  · exact hkey.create o
  · refine (hkey.create o).place (q := { managed := o }) ?_ rfl ?_
    · show (u.requests ++ [_])[s.requests.length]? = _
      rw [hlen, List.getElem?_append_right le_rfl, Nat.sub_self]
      rfl
    · -- the requests of a probe were made before
      intro k m hm hr
      obtain ⟨q, hq, -⟩ := hkey.owned k m hm _ hr
      have hlt := (List.getElem?_eq_some_iff.mp hq).1
      rw [hlen] at hlt
      exact lt_irrefl _ hlt

theorem Honest.sumUntil {β : Type} {f : β → ProbeManager → ProbeManager × Option ℕ}
    (hf : ∀ b u, Honest u → Honest (f b u).1) (h : Honest s) (l : List β) :
    Honest (ProbeManager.sumUntil f l s).1 := by
  induction l generalizing s with
  | nil => exact h
  | cons b l ih =>
    have hb := hf b s h
    unfold ProbeManager.sumUntil
    generalize f b s = answer at hb ⊢
    obtain ⟨u, - | n⟩ := answer
    · exact hb
    · have hrest := ih hb
      dsimp only at hrest ⊢
      generalize ProbeManager.sumUntil f l u = answer at hrest ⊢
      obtain ⟨v, - | k⟩ := answer
      · exact hrest
      · exact hrest

theorem Honest.armInType (h : Honest s) (jdi : Jdi) (o : ℕ) (type : ReferenceType) :
    Honest (s.armInType jdi o type).1 := by
  unfold ProbeManager.armInType
  split
  · exact h
  split
  · exact h
  split
  · exact h
  · exact h
  split
  · exact h
  · split
    · exact h
    · have hnote := h.update (f := fun m => { m with debugInfoErrorReported := true }) (fun m => rfl) o
      exact @Honest.report _ hnote _ .error nofun _
  · exact .sumUntil (fun key u hu => hu.armLocation jdi o key) h _

theorem Honest.reportArmed (h : Honest s) (o : ℕ) : Honest (s.reportArmed o) := by
  unfold ProbeManager.reportArmed
  split
  · exact h
  split
  · exact h
  · have hnote := h.update (f := fun m => { m with armedReported := true }) (fun m => rfl) o
    exact @Honest.report _ hnote _ .armed nofun _

theorem Honest.prepareAll (h : Honest s) (jdi : Jdi) (type : ReferenceType) (l : List ℕ) :
    Honest (s.prepareAll jdi type l) := by
  induction l generalizing s with
  | nil => exact h
  | cons o l ih =>
    unfold ProbeManager.prepareAll
    split
    · exact ih h
    · have harm := h.armInType jdi o type
      generalize s.armInType jdi o type = answer at harm ⊢
      obtain ⟨u, - | n⟩ := answer
      · exact harm
      · refine ih ?_
        split
        · exact Honest.reportArmed harm o
        · exact harm

/-! ### Hits -/

theorem Honest.limiter (h : Honest s) (rateLimiter : RateLimiter) : Honest { s with rateLimiter } :=
  h.alike rfl rfl rfl

theorem Honest.suspend (h : Honest s) (jdi : Jdi) (o r : ℕ) : Honest (s.suspend jdi o r).1 := by
  have hheld := h.update (f := fun m => { m with rateDisabled := insert r m.rateDisabled }) (fun m => rfl) o
  unfold ProbeManager.suspend
  dsimp only
  split
  · exact hheld
  · exact (hheld.quieter (.setEnabled _ r)).alike rfl rfl rfl

theorem Honest.capture (h : Honest s) (jdi : Jdi) (now later : ℤ) (reads : FrameReads) (r : ℕ) :
    Honest (s.capture jdi now later reads r).1 := by
  unfold ProbeManager.capture
  split
  · exact h
  next o m _ =>
  split
  · exact h
  have hfirst : Honest { s with rateLimiter := (s.rateLimiter.tryAcquire now).1 } := h.limiter _
  dsimp only
  split
  · exact hfirst
  by_cases hheld : r ∈ m.rateDisabled
  · rw [if_pos hheld]
    exact hfirst.limiter _
  · rw [if_neg hheld]
    have hsuspend := hfirst.suspend jdi o r
    generalize ProbeManager.suspend jdi o r { s with rateLimiter := (s.rateLimiter.tryAcquire now).1 } = answer
      at hsuspend ⊢
    obtain ⟨u, - | -⟩ := answer
    · exact hsuspend
    · exact Honest.limiter hsuspend _

theorem Honest.forget (h : Honest s) (o r : ℕ) : Honest (s.forget o r) := by
  have herased := h.update (f := fun m => { m with rateDisabled := m.rateDisabled.erase r }) (fun m => rfl) o
  exact herased.alike rfl rfl rfl

/-- A request is enabled by its own probe only, which is reported as armed. -/
theorem Honest.enable (h : Honest s) (hm : s.objects[o]? = some m) (hr : r ∈ m.requests) (detail : Option JsString) :
    Honest ((s.setEnabled r true).report m.definition.id .armed detail) := by
  constructor
  · intro k n hn i hi
    exact managed_setEnabled s r (h.owned k n hn i hi)
  · intro k n hn hactive hopen hlast
    obtain ⟨hlast, hother⟩ := @lastLifecycle_of_append _ ⟨m.definition.id, .armed, detail⟩ _ nofun hlast
    obtain ⟨i, hi, hoff⟩ := h.truthful k n hn hactive hopen hlast
    have hne : r ≠ i := by
      rintro rfl
      -- then the probe is the one that was reported
      obtain ⟨q₁, hq₁, hown₁⟩ := h.owned k n hn r hi
      obtain ⟨q₂, hq₂, hown₂⟩ := h.owned o m hm r hr
      obtain rfl := Option.some.inj (hq₁.symm.trans hq₂)
      rw [← hown₁, hown₂] at hn
      obtain rfl := Option.some.inj (hm.symm.trans hn)
      exact hother ⟨rfl, rfl⟩
    exact ⟨i, hi, disabled_setEnabled hne hoff⟩

theorem Honest.reenable (h : Honest s) (jdi : Jdi) (o r : ℕ) : Honest (s.reenable jdi o r) := by
  unfold ProbeManager.reenable
  rcases hm : s.objects[o]? with - | m
  · exact h
  dsimp only
  split
  · exact h
  have hforget := h.forget o r
  split
  · next hopen =>
    split
    · exact hforget
    · have hr : r ∈ m.requests := by
        have hcontains := (Bool.and_eq_true_iff.mp hopen).2
        exact List.elem_iff.mp hcontains
      have hm' : (s.forget o r).objects[o]? = some { m with rateDisabled := m.rateDisabled.erase r } := by
        rw [ProbeManager.forget, update_eq hm]
        exact (getElem?_set_of_some hm).trans (if_pos rfl)
      exact hforget.enable hm' hr _
  · exact hforget

/-! ### Reconciliation -/

/-- The probe under this identifier stays as it is when these are desired. -/
def Stays (s : ProbeManager) (desired : JsMap JsString Definition) (id : JsString) : Prop :=
  ∃ o m, s.probes.get? id = some o ∧ s.objects[o]? = some m ∧ desired.get? id = some m.definition

/-- A new probe is honest under a name that was not left suspended. -/
theorem Honest.enter (h : Honest s) {definition : Definition}
    (hlast : lastLifecycle s.reported definition.id ≠ some .suspended) : Honest (s.enter definition) := by
  have hget : ∀ (k : ℕ) n, (s.enter definition).objects[k]? = some n →
      s.objects[k]? = some n ∨ n = { definition := definition } := by
    intro k n hn
    rw [ProbeManager.enter, List.getElem?_append] at hn
    split at hn
    · exact .inl hn
    · exact .inr (List.mem_singleton.mp (List.mem_of_getElem? hn))
  constructor
  · intro k n hn r hr
    rcases hget k n hn with hn | rfl
    · exact h.owned k n hn r hr
    · cases hr
  · intro k n hn hactive hopen hsuspended
    rcases hget k n hn with hn | rfl
    · exact h.truthful k n hn hactive hopen hsuspended
    · exact absurd hsuspended hlast

/-- What letting go of a probe leaves as it was. -/
theorem uninstall_frame (jdi : Jdi) (k : ℕ) :
    (s.uninstall jdi k).probes = s.probes ∧ (s.uninstall jdi k).reported = s.reported ∧
      ∀ (o : ℕ) m, s.objects[o]? = some m →
        ∃ m', (s.uninstall jdi k).objects[o]? = some m' ∧ m'.definition = m.definition := by
  rcases hk : s.objects[k]? with - | n
  · rw [uninstall_of_none jdi hk]
    exact ⟨rfl, rfl, fun o m hm => ⟨m, hm, rfl⟩⟩
  · obtain ⟨requests, -, heq⟩ := retire_eq jdi hk fun m => { m with active := false }
    rw [ProbeManager.uninstall, heq]
    refine ⟨rfl, rfl, fun o m hm => ?_⟩
    by_cases ho : o = k
    · subst ho
      obtain rfl := Option.some.inj (hk.symm.trans hm)
      exact ⟨_, (getElem?_set_of_some hk).trans (if_pos rfl), rfl⟩
    · exact ⟨m, (getElem?_set_of_some hk).trans ((if_neg ho).trans hm), rfl⟩

/-- Names that were left suspended are those of probes that stay. -/
def Covers (s : ProbeManager) (desired : JsMap JsString Definition) (definitions : List Definition) : Prop :=
  ∀ d ∈ definitions, lastLifecycle s.reported d.id = some .suspended → s.Stays desired d.id

theorem Honest.removeStale (h : Honest s) (jdi : Jdi) (desired : JsMap JsString Definition)
    {definitions : List Definition} (hcovers : s.Covers desired definitions) {e : JsString × ℕ}
    (he : s.probes.get? e.1 = some e.2) :
    Honest (s.removeStale jdi desired e) ∧ (s.removeStale jdi desired e).Covers desired definitions := by
  unfold ProbeManager.removeStale
  split
  · exact ⟨h, hcovers⟩
  next hstale =>
  obtain ⟨hprobes, hreported, hobjects⟩ := uninstall_frame (s := s) jdi e.2
  refine ⟨(h.uninstall jdi e.2).alike rfl rfl rfl, fun d hd hlast => ?_⟩
  obtain ⟨o, m, ho, hm, hdesired⟩ := hcovers d hd (by
    rw [← hreported]
    exact hlast)
  have hne : d.id ≠ e.1 := by
    intro heq
    rw [heq, he] at ho
    obtain rfl := Option.some.inj ho
    refine hstale ?_
    rw [← heq, hdesired, hm]
    rfl
  obtain ⟨m', hm', hsame⟩ := hobjects o m hm
  refine ⟨o, m', ?_, hm', ?_⟩
  · show (s.probes.delete e.1).get? d.id = some o
    rw [JsMap.get?_delete_of_ne hne, ho]
  · rw [hdesired, hsame]

theorem Honest.removeAll (h : Honest s) (jdi : Jdi) (desired : JsMap JsString Definition)
    {definitions : List Definition} (hcovers : s.Covers desired definitions) {l : List (JsString × ℕ)}
    (hnodup : (l.map Prod.fst).Nodup) (hl : ∀ e ∈ l, s.probes.get? e.1 = some e.2) :
    Honest (l.foldl (ProbeManager.removeStale jdi desired) s) ∧
      (l.foldl (ProbeManager.removeStale jdi desired) s).Covers desired definitions := by
  induction l generalizing s with
  | nil => exact ⟨h, hcovers⟩
  | cons e l ih =>
    rw [List.map_cons, List.nodup_cons] at hnodup
    obtain ⟨hhonest, hcovered⟩ := h.removeStale jdi desired hcovers (hl e (List.mem_cons_self ..))
    refine ih hhonest hcovered hnodup.2 fun e' he' => ?_
    have hfound := hl e' (List.mem_cons_of_mem _ he')
    unfold ProbeManager.removeStale
    split
    · exact hfound
    · show (s.probes.delete e.1).get? e'.1 = some e'.2
      rw [JsMap.get?_delete_of_ne, hfound]
      intro heq
      exact hnodup.1 (List.mem_map.mpr ⟨e', he', heq⟩)

/-- Nothing is tracked anew, and nothing is left suspended. -/
structure Calm (s t : ProbeManager) : Prop where
  probes : t.probes = s.probes
  last : ∀ id, lastLifecycle t.reported id = some .suspended → lastLifecycle s.reported id = some .suspended

theorem Calm.refl (s : ProbeManager) : Calm s s := ⟨rfl, fun _ h => h⟩

theorem Calm.trans {u : ProbeManager} (h : Calm s t) (h' : Calm t u) : Calm s u :=
  ⟨h'.probes.trans h.probes, fun id hlast => h.last id (h'.last id hlast)⟩

theorem Calm.report (s : ProbeManager) (probeId : JsString) {status : ProbeStatusName}
    (hstatus : status ≠ .suspended) (detail : Option JsString) : Calm s (s.report probeId status detail) :=
  ⟨rfl, fun _ hlast => (lastLifecycle_of_append hstatus hlast).1⟩

theorem Calm.update (o : ℕ) (f : ManagedProbe → ManagedProbe) (s : ProbeManager) : Calm s (s.update o f) :=
  ⟨rfl, fun _ h => h⟩

theorem Calm.armLocation (jdi : Jdi) (o : ℕ) (key : JsString) (s : ProbeManager) :
    Calm s (s.armLocation jdi o key).1 := by
  unfold ProbeManager.armLocation
  dsimp only
  split
  · exact .refl s
  split
  · exact ⟨rfl, fun _ h => h⟩
  split
  · exact ⟨rfl, fun _ h => h⟩
  · exact ⟨rfl, fun _ h => h⟩

theorem Calm.sumUntil {β : Type} {f : β → ProbeManager → ProbeManager × Option ℕ}
    (hf : ∀ b u, Calm u (f b u).1) (l : List β) (s : ProbeManager) : Calm s (ProbeManager.sumUntil f l s).1 := by
  induction l generalizing s with
  | nil => exact .refl s
  | cons b l ih =>
    have hb := hf b s
    unfold ProbeManager.sumUntil
    generalize f b s = answer at hb ⊢
    obtain ⟨u, - | n⟩ := answer
    · exact hb
    · have hrest := ih u
      dsimp only at hb hrest ⊢
      generalize ProbeManager.sumUntil f l u = answer at hrest ⊢
      obtain ⟨v, - | k⟩ := answer
      · exact hb.trans hrest
      · exact hb.trans hrest

theorem Calm.armInType (jdi : Jdi) (o : ℕ) (type : ReferenceType) (s : ProbeManager) :
    Calm s (s.armInType jdi o type).1 := by
  unfold ProbeManager.armInType
  split
  · exact .refl s
  split
  · exact .refl s
  split
  · exact .refl s
  · exact .refl s
  split
  · exact .refl s
  · split
    · exact .refl s
    · exact (Calm.update o _ s).trans (@Calm.report _ _ .error nofun _)
  · exact .sumUntil (Calm.armLocation jdi o) _ s

theorem Calm.reportArmed (o : ℕ) (s : ProbeManager) : Calm s (s.reportArmed o) := by
  unfold ProbeManager.reportArmed
  split
  · exact .refl s
  split
  · exact .refl s
  · exact (Calm.update o _ s).trans (@Calm.report _ _ .armed nofun _)

/-- The names that were left suspended are tracked. -/
def Tracks (s : ProbeManager) (definitions : List Definition) : Prop :=
  ∀ d ∈ definitions, lastLifecycle s.reported d.id = some .suspended → s.probes.has d.id = true

/-- A definition is installed under a name that is free, so it was not left suspended. -/
theorem Honest.install (h : Honest s) (jdi : Jdi) {definition : Definition} {definitions : List Definition}
    (htracks : s.Tracks (definition :: definitions)) :
    Honest (s.install jdi definition).1 ∧ (s.install jdi definition).1.Tracks definitions := by
  have hrest : s.Tracks definitions := fun d hd => htracks d (List.mem_cons_of_mem _ hd)
  unfold ProbeManager.install
  split
  · exact ⟨h, hrest⟩
  next hfree =>
  have henter : Honest (s.enter definition) :=
    h.enter fun hlast => hfree (htracks definition (List.mem_cons_self ..) hlast)
  -- what follows tracks what was tracked, and leaves nothing suspended
  have htracked : ∀ t, Calm (s.enter definition) t → t.Tracks definitions := by
    intro t ht d hd hlast
    have hhas := hrest d hd (ht.last d.id hlast)
    rw [ht.probes]
    show (s.probes.set definition.id s.objects.length).has d.id = true
    rw [JsMap.has, JsMap.get?_set]
    split
    · rfl
    · exact hhas
  dsimp only
  split
  · exact ⟨henter, htracked _ (.refl _)⟩
  next types _ =>
  have harm := Honest.sumUntil (f := ProbeManager.armInType jdi s.objects.length)
    (fun type u hu => hu.armInType jdi s.objects.length type) henter types
  have hcalm := Calm.sumUntil (Calm.armInType jdi s.objects.length) types (s.enter definition)
  generalize ProbeManager.sumUntil (ProbeManager.armInType jdi s.objects.length) types (s.enter definition) =
    answer at harm hcalm ⊢
  obtain ⟨u, - | - | n⟩ := answer
  · exact ⟨harm, htracked u hcalm⟩
  · have hnote := Honest.update harm (f := fun m => { m with lineErrorReported := true }) (fun m => rfl)
      s.objects.length
    exact ⟨@Honest.report _ hnote _ .error (by decide) _,
      htracked _ ((hcalm.trans (.update s.objects.length _ u)).trans (@Calm.report _ _ .error (by decide) _))⟩
  · exact ⟨Honest.reportArmed harm _, htracked _ (hcalm.trans (.reportArmed _ u))⟩

theorem Honest.installAll (h : Honest s) (jdi : Jdi) {definitions : List Definition}
    (htracks : s.Tracks definitions) : Honest (s.installAll jdi definitions) := by
  induction definitions generalizing s with
  | nil => exact h
  | cons definition definitions ih =>
    obtain ⟨hone, hrest⟩ := h.install jdi htracks
    unfold ProbeManager.installAll
    generalize s.install jdi definition = answer at hone hrest ⊢
    obtain ⟨u, - | -⟩ := answer
    · exact hone
    · exact ih hone hrest

/-- `reconcile`'s map of the definitions by identifier -/
def desiredOf (definitions : List Definition) : JsMap JsString Definition :=
  JsMap.ofEntries (definitions.map fun d => (d.id, d))

theorem Honest.reconcile (h : Honest s) (jdi : Jdi) {definitions : List Definition}
    (hcovers : s.Covers (desiredOf definitions) definitions) : Honest (s.reconcile jdi definitions) := by
  obtain ⟨hhonest, hcovered⟩ := h.removeAll jdi (desiredOf definitions) hcovers (JsMap.nodup s.probes)
    fun e he => JsMap.get?_eq_some_iff.mpr he
  refine hhonest.installAll jdi fun d hd hlast => ?_
  obtain ⟨o, m, ho, -, -⟩ := hcovered d hd hlast
  rw [JsMap.has]
  exact Option.isSome_iff_exists.mpr ⟨o, ho⟩

theorem Honest.close (h : Honest s) (jdi : Jdi) : Honest (s.close jdi) := by
  have hall : ∀ (l : List ℕ) (u : ProbeManager), Honest u →
      Honest (l.foldl (fun s o => s.uninstall jdi o) u) := by
    intro l
    induction l with
    | nil => exact fun u hu => hu
    | cons o l ih => exact fun u hu => ih _ (hu.uninstall jdi o)
  exact (hall s.probes.values s h).alike rfl rfl rfl

theorem Honest.onClassPrepared (h : Honest s) (jdi : Jdi) (type : ReferenceType) :
    Honest (s.onClassPrepared jdi type) :=
  h.prepareAll jdi type _

/-- A suspension is reported honestly while every probe of the name has a disabled request. -/
theorem Honest.reportSuspended (h : Honest s) {probeId : JsString} (detail : Option JsString)
    (hdisabled : ∀ (o : ℕ) m, s.objects[o]? = some m → m.active = true → m.completed = false →
      m.definition.id = probeId → s.HasDisabled m) : Honest (s.report probeId .suspended detail) := by
  refine ⟨h.owned, fun o m hm hactive hopen hlast => ?_⟩
  by_cases hid : m.definition.id = probeId
  · exact hdisabled o m hm hactive hopen hid
  · refine h.truthful o m hm hactive hopen ?_
    replace hlast : lastLifecycle (s.reported ++ [⟨probeId, .suspended, detail⟩]) m.definition.id =
      some .suspended := hlast
    rw [lastLifecycle_append, if_neg fun hboth => hid hboth.1.symm] at hlast
    exact hlast

/-- No active probe that is not completed was last reported as suspended while
all its breakpoint requests are enabled. -/
def Truthful (s : ProbeManager) : Prop :=
  ∀ (o : ℕ) m, s.objects[o]? = some m → m.active = true → m.completed = false →
    (∀ r ∈ m.requests, ∀ q, s.requests[r]? = some q → q.enabled = true) →
    lastLifecycle s.reported m.definition.id ≠ some .suspended

theorem Honest.toTruthful (h : Honest s) : Truthful s := by
  intro o m hm hactive hopen henabled hlast
  obtain ⟨r, hr, q, hq, hoff⟩ := h.truthful o m hm hactive hopen hlast
  rw [henabled r hr q hq] at hoff
  cases hoff

end ProbeManager

/-! ### Every run -/

namespace Bridge

open JsString ProbeManager

variable {p : Bridge}

/-- The name under which `afterResume` reports a probe. -/
def idOf (p : Bridge) (o : ℕ) : JsString := (p.manager.objects[o]?.map (·.definition.id)).getD []

/-- A suspension is reported before its request is enabled again and before its
probe is replaced, and no new probe gets a name that was left suspended. -/
def OnTime (p : Bridge) : BridgeEvent → Prop
  | .afterResume index =>
    ∀ o r waitNanos, p.outcomes[index]? = some (.rateLimited o r waitNanos) →
      ∀ (k : ℕ) m, p.manager.objects[k]? = some m → m.active = true → m.completed = false →
        m.definition.id = p.idOf o → p.manager.HasDisabled m
  | .reconcile _ definitions => p.manager.Covers (desiredOf definitions) definitions
  | _ => True

theorem honest_claim (h : p.manager.Honest) (o : ℕ) : (p.claim o).manager.Honest := by
  unfold Bridge.claim
  split
  · exact h
  split
  · exact h
  · exact h.update (f := fun m => { m with claimed := m.claimed + 1 }) (fun m => rfl) o

theorem honest_next (h : p.manager.Honest) (e : BridgeEvent) (he : p.OnTime e) : (p.next e).manager.Honest := by
  cases e with
  | reconcile jdi definitions => exact h.reconcile jdi he
  | onClassPrepared jdi type => exact h.onClassPrepared jdi type
  | breakpoint r =>
    simp only [Bridge.next]
    split <;> exact h
  | capture jdi now later reads =>
    simp only [Bridge.next]
    split
    · exact h
    · exact h.capture jdi now later reads _
  | afterResume index =>
    simp only [Bridge.next]
    split
    · exact h
    next outcome houtcome =>
    cases outcome with
    | captured o => exact h
    | ignored => exact h
    | failed o detail => exact @Honest.report _ h _ .error (by decide) _
    | rateLimited o r waitNanos => exact h.reportSuspended _ (he o r waitNanos houtcome)
  | process index holds =>
    simp only [Bridge.next]
    split
    · exact h
    next task _ =>
    have hrest : ({ p with tasks := p.tasks.eraseIdx index } : Bridge).manager.Honest := h
    cases task with
    | process o =>
      cases holds with
      | true => exact honest_claim hrest o
      | false => exact h
    | countWithoutCapture o => exact honest_claim hrest o
  | completeMatchingLimit jdi index =>
    simp only [Bridge.next]
    split
    · exact h
    · exact h.completeMatchingLimit jdi _
  | reenable jdi index =>
    simp only [Bridge.next]
    split
    · exact h
    · exact h.reenable jdi _ _
  | close jdi => exact h.close jdi

/-- **Statuses are truthful** in every run that reports its suspensions on time. -/
theorem truthful_statuses {limiter : RateLimiter} (h : Reached next OnTime (start limiter) p) :
    p.manager.Truthful :=
  Honest.toTruthful (h.invariant (.start limiter) fun _ e hp he => honest_next hp e he)

/-- No event is in progress, and every task to enable a request has run. -/
structure AtRest (p : Bridge) : Prop where
  events : p.events = []
  outcomes : p.outcomes = []
  scheduled : p.scheduled = []

/-! ### A late report -/

/-- One hit within the budget of one, and one over it. -/
def suspended : List BridgeEvent :=
  [.reconcile connected [counterAt], .breakpoint 0, .breakpoint 0, .capture connected 0 0 ⟨.ok, .ok, .ok⟩,
    .capture connected 1 1 ⟨.ok, .ok, .ok⟩, .afterResume 1]

/-- Reported on time, the suspension is the truth. -/
theorem suspended_truthful :
    (suspended.foldl next (start limiter)).manager.Truthful ∧
      lastLifecycle (suspended.foldl next (start limiter)).manager.reported (js "prb_1") = some .suspended := by
  refine ⟨truthful_statuses (Reached.foldl .init ⟨?_, trivial, trivial, trivial, trivial, ?_, trivial⟩),
    by decide⟩
  · intro d _ hlast
    cases hlast
  · -- the one probe that was made has one request, which is disabled
    intro o r waitNanos _ k m hm _ _ _
    have hfaces : (((suspended.take 5).foldl next (start limiter)).manager.objects.map fun m => m.requests) =
      [[0]] := by decide
    have hoff : (((suspended.take 5).foldl next (start limiter)).manager.requests[0]?).map (·.enabled) =
      some false := by decide
    have hmem : m.requests ∈ [[0]] := by
      rw [← hfaces]
      exact List.mem_map_of_mem (List.mem_of_getElem? hm)
    obtain ⟨q, hq, hdisabled⟩ := Option.map_eq_some_iff.mp hoff
    refine ⟨0, ?_, q, hq, hdisabled⟩
    rw [List.mem_singleton.mp hmem]
    exact List.mem_singleton_self 0

/-- A third hit is refused at the end of the window.  Its request is enabled
before the hit is reported. -/
def lateReport : List BridgeEvent :=
  [.reconcile connected [counterAt], .breakpoint 0, .breakpoint 0, .breakpoint 0,
    .capture connected 0 0 ⟨.ok, .ok, .ok⟩, .afterResume 0, .capture connected 1 1 ⟨.ok, .ok, .ok⟩, .afterResume 0,
    .capture connected 999999999 999999999 ⟨.ok, .ok, .ok⟩, .reenable connected 0, .afterResume 0,
    .reenable connected 0]

/-- At rest the probe is armed, and was last reported as suspended. -/
theorem lateReport_untruthful :
    ∃ p, Reached next (fun _ _ => True) (start limiter) p ∧ AtRest p ∧ ¬ p.manager.Truthful := by
  refine ⟨lateReport.foldl next (start limiter), Reached.foldl .init ?_, ⟨?_, ?_, ?_⟩, fun h => ?_⟩
  · repeat' constructor
  · decide
  · decide
  · decide
  · have hface : ((lateReport.foldl next (start limiter)).manager.objects[0]?).map
        (fun m => (m.active, m.completed, m.requests, m.definition.id)) = some (true, false, [0], js "prb_1") := by
      decide
    have henabled : ((lateReport.foldl next (start limiter)).manager.requests[0]?).map (·.enabled) =
      some true := by decide
    have hlast : lastLifecycle (lateReport.foldl next (start limiter)).manager.reported (js "prb_1") =
      some .suspended := by decide
    obtain ⟨m, hm, heq⟩ := Option.map_eq_some_iff.mp hface
    simp only [Prod.mk.injEq] at heq
    obtain ⟨hactive, hopen, hrequests, hid⟩ := heq
    refine h 0 m hm hactive hopen (fun r hr q hq => ?_) (hid ▸ hlast)
    rw [hrequests, List.mem_singleton] at hr
    rw [hr] at hq
    rw [hq] at henabled
    exact Option.some.inj henabled

end Bridge

end JvmBridge
