/-
LiveProbe/View.lean

A service as its agents see it: the version, the live probes and the complete
source maps.  A poll is answered from this view alone (`located_view`).

Three things can happen to the view of a service.  It stays, or the probes that
are due leave it and raise its version by their number (`ServiceView.expire`),
or a request that concerns this very service raises its version (`raised`).
In each case the view advances: no content is replaced under the same version
(`handle_advances`).
-/
import LiveProbe.Restore
import LiveProbe.Transition

open JsString Broker Protocol BrokerState

/-- Whether a probe is live and belongs to a service. -/
def StoredProbe.liveIn (scope : ResourceScope) (serviceId : JsString) (p : StoredProbe) : Bool :=
  p.scope = scope && p.probe.serviceId = serviceId && !p.expired

/-- A service as its agents see it.  The commits are texts without a NUL, as
all commits of requests are. -/
structure ServiceView where
  version : ℕ
  live : List StoredProbe
  maps : {c : JsString // nul ∉ c} → Option (List StoredSourceMap)

namespace ServiceView

/-- What a poll shows of a view besides the version. -/
def content (v : ServiceView) :
    List ProbeDefinition × ({c : JsString // nul ∉ c} → Option (List StoredSourceMap)) :=
  (v.live.map (·.probe), v.maps)

/-- The view after the probes that are due at a clock value have expired. -/
def expire (now : ℕ) (v : ServiceView) : ServiceView :=
  { v with
    version := v.version + (v.live.filter (·.due now)).length
    live := v.live.filter fun p => !p.due now }

/-- The live definitions with the locations of a commit. -/
def located (cfg : Config) (commitSha : Option JsString) (v : ServiceView) :
    Except BrokerError (List ProbeDefinition) :=
  (v.live.map (·.probe)).mapM (BrokerState.withRuntimeLocation cfg
    (commitSha.bind fun c => if h : nul ∉ c then v.maps ⟨c, h⟩ else none))

/-- The same content has the same locations. -/
theorem located_congr {cfg : Config} {v w : ServiceView} (h : v.content = w.content)
    (commitSha : Option JsString) : v.located cfg commitSha = w.located cfg commitSha := by
  obtain ⟨hl, hm⟩ := Prod.mk.inj h
  simp only [located, hl, hm]

/-- Expiring twice is expiring at the later time. -/
theorem expire_expire (n m : ℕ) (v : ServiceView) : (v.expire n).expire m = v.expire (max n m) := by
  have hdue : ∀ p : StoredProbe, (p.due (max n m)) = (p.due n || (!p.due n && p.due m)) := by
    intro p
    rw [Bool.eq_iff_iff]
    simp only [StoredProbe.due, Bool.and_eq_true, Bool.or_eq_true, Bool.not_eq_true',
      Bool.and_eq_false_iff, decide_eq_true_eq, decide_eq_false_iff_not, le_max_iff]
    cases p.expired <;> simp
    omega
  have hlen : ∀ l : List StoredProbe, (l.filter (·.due n)).length +
      ((l.filter fun p => !p.due n).filter (·.due m)).length =
        (l.filter (·.due (max n m))).length := by
    intro l
    induction l with
    | nil => rfl
    | cons p l ih =>
      simp only [List.filter_cons, hdue p]
      cases hn : p.due n
      · cases hm : p.due m
        · simpa [hm] using ih
        · simp only [Bool.not_false, if_true, List.filter_cons, hm, Bool.false_or, Bool.true_and,
            List.length_cons, ← ih]
          exact (Nat.add_assoc _ _ _).symm
      · simp only [Bool.not_true, Bool.true_or, if_true, List.length_cons, ← ih]
        exact Nat.add_right_comm _ _ _
  refine ServiceView.mk.injEq .. |>.mpr ⟨?_, ?_, rfl⟩
  · exact (Nat.add_assoc _ _ _).trans (congrArg (v.version + ·) (hlen v.live))
  · simp only [expire, List.filter_filter]
    refine List.filter_congr fun p _ => ?_
    rw [hdue p]
    cases p.due n <;> cases p.due m <;> rfl

theorem expire_self (n : ℕ) (v : ServiceView) : (v.expire n).expire n = v.expire n := by
  rw [expire_expire, max_self]

/-- Expiring later advances what expiring earlier gives. -/
theorem expire_advances (v : ServiceView) {n m : ℕ} (h : n ≤ m) :
    Advances version content (v.expire n) (v.expire m) := by
  have hm : v.expire m = (v.expire n).expire m := by rw [expire_expire, max_eq_right h]
  rw [hm]
  generalize v.expire n = w
  refine ⟨Nat.le_add_right _ _, fun he => ?_⟩
  have hz : (w.live.filter (·.due m)).length = 0 := by
    simp only [expire] at he
    omega
  have hall : ∀ p ∈ w.live, p.due m = false := fun p hp => by
    rw [List.length_eq_zero_iff, List.filter_eq_nil_iff] at hz
    simpa using hz p hp
  simp only [content, expire]
  rw [List.filter_eq_self.mpr fun p hp => by simp [hall p hp]]

/-- Expiring advances the view. -/
theorem advances_expire (v : ServiceView) (n : ℕ) : Advances version content v (v.expire n) := by
  refine ⟨Nat.le_add_right _ _, fun he => ?_⟩
  have hz : (v.live.filter (·.due n)).length = 0 := by
    simp only [expire] at he
    omega
  have hall : ∀ p ∈ v.live, p.due n = false := fun p hp => by
    rw [List.length_eq_zero_iff, List.filter_eq_nil_iff] at hz
    simpa using hz p hp
  simp only [content, expire]
  rw [List.filter_eq_self.mpr fun p hp => by simp [hall p hp]]

end ServiceView

namespace BrokerState

variable {cfg : Config} {now : ℕ} {scope sc : ResourceScope} {serviceId sv : JsString}
  {r : Request} {s t : BrokerState}

/-- The view of a service. -/
def view (sc : ResourceScope) (sv : JsString) (s : BrokerState) : ServiceView where
  version := s.serviceVersion sc sv
  live := s.probes.values.filter (StoredProbe.liveIn sc sv)
  maps c := s.completeMaps sc sv c

theorem view_congr (hp : t.probes = s.probes) (hv : t.serviceVersions = s.serviceVersions)
    (hm : t.sourceMapSets = s.sourceMapSets) : t.view sc sv = s.view sc sv := by
  simp only [view, serviceVersion, completeMaps, hp, hv, hm]

theorem view_of_core (h : t.core = s.core) : t.view sc sv = s.view sc sv := by
  simp only [core, Prod.mk.injEq] at h
  exact view_congr h.1 h.2.1 h.2.2.1

/-- A poll for a commit is answered from the view. -/
theorem located_view {commitSha : Option JsString} (h : ∀ c ∈ commitSha, nul ∉ c)
    (s : BrokerState) :
    s.located cfg sv commitSha sc = (s.view sc sv).located cfg commitSha := by
  cases commitSha with
  | none => rfl
  | some c => simp only [located, ServiceView.located, Option.bind_some, dif_pos (h c rfl)]; rfl

/-! ### Versions -/

theorem serviceVersion_increment (serviceId : JsString) (scope sc : ResourceScope)
    (sv : JsString) (s : BrokerState) :
    (s.incrementServiceVersion serviceId scope).serviceVersion sc sv =
      s.serviceVersion sc sv + if scope = sc ∧ serviceId = sv then 1 else 0 := by
  simp only [serviceVersion, incrementServiceVersion, JsMap.get?_set, serviceKey_inj]
  by_cases h : scope = sc ∧ serviceId = sv
  · obtain ⟨rfl, rfl⟩ := h
    simp
  · rw [if_neg fun h' => h ⟨h'.1.symm, h'.2.symm⟩, if_neg h, Nat.add_zero]

/-! ### Expiry -/

/-- Expiry rewrites each probe in place. -/
theorem probes_expireDueProbes (cfg : Config) (now : ℕ) (s : BrokerState) :
    (s.expireDueProbes cfg now).probes = s.probes.mapVals fun _ p => p.expire now := by
  have hhom : (s.expireDueProbes cfg now).probes = s.probes.entries.foldl
      (fun m e => if e.2.due now then m.set e.1 e.2.markExpired else m) s.probes :=
    (List.foldl_hom BrokerState.probes fun t e => (probes_expireProbe cfg now t e).symm).symm
  apply JsMap.ext
  rw [hhom, JsMap.foldl_update_entries (fun e => e.2.due now) StoredProbe.markExpired]
  refine List.map_congr_left fun e _ => ?_
  by_cases h : e.2.due now = true <;> simp [StoredProbe.expire, h]

theorem sourceMapSets_expireDueProbes (cfg : Config) (now : ℕ) (s : BrokerState) :
    (s.expireDueProbes cfg now).sourceMapSets = s.sourceMapSets :=
  expireDueProbes_induction (P := fun t => t.sourceMapSets = s.sourceMapSets) rfl
    fun t e ht _ _ => by
      unfold expireProbe
      split
      · exact ht
      · exact ht

/-- An expiration raises the version of the probe's service. -/
theorem serviceVersion_expireProbe (e : JsString × StoredProbe) :
    (s.expireProbe cfg now e).serviceVersion sc sv =
      s.serviceVersion sc sv + if (e.2.liveIn sc sv && e.2.due now) = true then 1 else 0 := by
  by_cases h : e.2.due now = true
  · have hx : e.2.expired = false := by
      simp only [StoredProbe.due, Bool.and_eq_true, Bool.not_eq_true'] at h
      exact h.1
    rw [expireProbe, if_pos h]
    refine (serviceVersion_increment _ _ _ _
      { s with probes := s.probes.set e.1 e.2.markExpired }).trans ?_
    congr 1
    simp [StoredProbe.liveIn, hx, h]
  · rw [expireProbe, if_neg h]
    simp [h]

theorem serviceVersion_expireDueProbes (cfg : Config) (now : ℕ) (s : BrokerState) :
    (s.expireDueProbes cfg now).serviceVersion sc sv =
      s.serviceVersion sc sv + ((s.view sc sv).live.filter (·.due now)).length := by
  have key : ∀ (l : List (JsString × StoredProbe)) (t : BrokerState),
      (l.foldl (expireProbe cfg now) t).serviceVersion sc sv = t.serviceVersion sc sv +
        (((l.map Prod.snd).filter (StoredProbe.liveIn sc sv)).filter (·.due now)).length := by
    intro l
    induction l with
    | nil => exact fun _ => rfl
    | cons e l ih =>
      intro t
      rw [List.foldl_cons, ih, serviceVersion_expireProbe, List.map_cons]
      cases h₁ : e.2.liveIn sc sv <;> cases h₂ : e.2.due now <;> simp [h₁, h₂]
      omega
  exact key _ s

/-- **Expiry of the state is expiry of each view.** -/
theorem view_expireDueProbes (cfg : Config) (now : ℕ) (s : BrokerState) :
    (s.expireDueProbes cfg now).view sc sv = (s.view sc sv).expire now := by
  have hlive : ((s.probes.mapVals fun _ p => p.expire now).values.filter
      (StoredProbe.liveIn sc sv)) = (s.view sc sv).live.filter fun p => !p.due now := by
    simp only [view, JsMap.values, JsMap.entries_mapVals, List.map_map]
    induction s.probes.entries with
    | nil => rfl
    | cons e l ih =>
      simp only [List.map_cons, Function.comp_apply, List.filter_cons]
      by_cases hd : e.2.due now = true
      · have hl : (e.2.expire now).liveIn sc sv = false := by
          simp [StoredProbe.expire, hd, StoredProbe.markExpired, StoredProbe.liveIn]
        rw [hl]
        cases hm : e.2.liveIn sc sv <;> simpa [hd] using ih
      · rw [StoredProbe.expire, if_neg hd]
        cases hm : e.2.liveIn sc sv <;> simp_all
  simp only [ServiceView.expire]
  refine ServiceView.mk.injEq .. |>.mpr ⟨serviceVersion_expireDueProbes cfg now s, ?_, ?_⟩
  · rw [probes_expireDueProbes]
    exact hlive
  · funext c
    simp only [view, completeMaps, sourceMapSets_expireDueProbes]

/-! ### The services a request concerns -/

/-- The services whose version a request raises when it is granted. -/
def raised (scope : ResourceScope) (r : Request) (s : BrokerState) :
    List (ResourceScope × JsString) :=
  match r with
  | .createProbe _ input => [(scope, input.serviceId)]
  | .deleteProbe id =>
    match s.ownProbe id scope with
    | none => []
    | some stored => if stored.expired then [] else [(scope, stored.probe.serviceId)]
  | .completeSourceMaps serviceId _ _ => [(scope, serviceId)]
  | _ => []

/-- What a change does to the view of a service. -/
inductive ViewChange (now : ℕ) (concerned : Prop) (v : ServiceView) : ServiceView → Prop
  | same : ViewChange now concerned v v
  | expire : ViewChange now concerned v (v.expire now)
  | raise {w : ServiceView} (h : concerned) (lt : v.version < w.version) :
      ViewChange now concerned v w

theorem ViewChange.of_eq {concerned : Prop} {v w : ServiceView} (h : w = v) :
    ViewChange now concerned v w := h ▸ .same

/-- Whatever changes a view advances it. -/
theorem ViewChange.advances {concerned : Prop} {v w : ServiceView}
    (h : ViewChange now concerned v w) :
    Advances ServiceView.version ServiceView.content v w := by
  cases h with
  | same => exact .refl v
  | expire => exact v.advances_expire now
  | raise _ lt => exact .of_lt lt

/-- A probe outside the service leaves no trace in the view when it is removed. -/
theorem live_delete {m : JsMap JsString StoredProbe} {id : JsString} {stored : StoredProbe}
    (hg : m.get? id = some stored) (h : stored.liveIn sc sv = false) :
    (m.delete id).values.filter (StoredProbe.liveIn sc sv) =
      m.values.filter (StoredProbe.liveIn sc sv) := by
  simp only [JsMap.values, JsMap.delete, JsMap.entries_filter, List.filter_map, List.filter_filter]
  congr 1
  refine List.filter_congr fun e he => ?_
  by_cases hk : e.1 = id
  · have hv : e.2 = stored :=
      JsMap.value_unique (k := id) (hk ▸ he) (JsMap.get?_eq_some_iff.mp hg)
    simp [hk, hv, h]
  · simp [hk]

theorem nul_notMem_of_commit {c : JsString} (h : sourceCommitSchema c = some c) : nul ∉ c := by
  intro hm
  have htrim : lowerHex 7 64 c = some c := stable_lowerHex 7 64 h
  have := all_isHexUnit_of_lowerHex htrim nul hm
  simp [isHexUnit, isDigit, nul] at this

/-- Two incomplete sets look the same to a poll. -/
theorem view_set_incomplete {key : JsString} {m : SourceMapSet}
    (hs : s.isComplete key = false) (hm : m.complete = false)
    (hp : t.probes = s.probes) (hv : t.serviceVersions = s.serviceVersions)
    (ht : t.sourceMapSets = s.sourceMapSets.set key m) : t.view sc sv = s.view sc sv := by
  refine ServiceView.mk.injEq .. |>.mpr ⟨by simp only [serviceVersion, hv], by simp only [hp], ?_⟩
  funext c
  simp only [completeMaps, ht, JsMap.get?_set]
  split
  · next hk =>
    simp only [isComplete, ← hk] at hs
    rw [Option.bind_some, if_neg (by simp [hm])]
    rcases hg : s.sourceMapSets.get? (sourceMapKey sc sv c) with - | m'
    · rfl
    · rw [hg] at hs
      have : m'.complete = false := by simpa using hs
      simp [this]
  · rfl

theorem get?_dropSourceMaps (keys : List JsString) (s : BrokerState) (k : JsString) :
    (s.dropSourceMaps keys).sourceMapSets.get? k =
      if k ∈ keys then none else s.sourceMapSets.get? k := by
  unfold dropSourceMaps
  induction keys generalizing s with
  | nil => simp
  | cons key keys ih =>
    rw [List.foldl_cons, ih]
    by_cases hk : k ∈ keys
    · rw [if_pos hk, if_pos (List.mem_cons_of_mem _ hk)]
    · by_cases hkk : k = key
      · subst hkk
        simp [hk]
      · rw [if_neg hk, if_neg (by simp [hk, hkk]), JsMap.get?_delete_of_ne hkk]

theorem dropSourceMaps_frame (keys : List JsString) (s : BrokerState) :
    (s.dropSourceMaps keys).probes = s.probes ∧
      (s.dropSourceMaps keys).serviceVersions = s.serviceVersions := by
  unfold dropSourceMaps
  induction keys generalizing s with
  | nil => exact ⟨rfl, rfl⟩
  | cons key keys ih => exact ih _

/-- The surplus sets of a service are its own. -/
theorem surplus_own (hs : Indexed s) {k : JsString}
    (hk : k ∈ surplusSourceMaps cfg serviceId scope s.sourceMapSets) :
    ∃ c, nul ∉ c ∧ k = sourceMapKey scope serviceId c := by
  simp only [surplusSourceMaps, List.mem_map] at hk
  obtain ⟨e, he, rfl⟩ := hk
  have hmem := List.mem_mergeSort.mp (List.mem_of_mem_drop he)
  obtain ⟨hm, hown⟩ := List.mem_filter.mp hmem
  simp only [Bool.and_eq_true, decide_eq_true_eq] at hown
  have hi := hs.sourceMapSets _ _ (JsMap.get?_eq_some_iff.mpr hm)
  exact ⟨e.2.commitSha, nul_notMem_of_commit hi.commitSha, by rw [hi.key, hown.1, hown.2]⟩

/-- A completion touches no set of another service. -/
theorem view_complete_other (hs : Indexed s) {commitSha : JsString}
    (hid : serviceIdSchema serviceId = some serviceId)
    (hc : sourceCommitSchema commitSha = some commitSha)
    (hne : ¬(scope = sc ∧ serviceId = sv)) :
    let t := (s.markComplete now serviceId commitSha scope).incrementServiceVersion serviceId scope
    (t.dropSourceMaps (surplusSourceMaps cfg serviceId scope t.sourceMapSets)).view sc sv =
      s.view sc sv := by
  intro t
  have ht : Indexed t := (hs.markComplete hid hc).incrementServiceVersion scope hid
  obtain ⟨hp, hv⟩ := dropSourceMaps_frame (surplusSourceMaps cfg serviceId scope t.sourceMapSets) t
  refine ServiceView.mk.injEq .. |>.mpr ⟨?_, by rw [hp]; rfl, ?_⟩
  · have := serviceVersion_increment serviceId scope sc sv
      (s.markComplete now serviceId commitSha scope)
    rw [if_neg hne, Nat.add_zero] at this
    simp only [serviceVersion, hv]
    exact this
  · funext c
    simp only [completeMaps, get?_dropSourceMaps]
    rw [if_neg]
    · have hkey : sourceMapKey sc sv c ≠ sourceMapKey scope serviceId commitSha := fun h => by
        obtain ⟨⟨h₁, h₂⟩, -⟩ := (sourceMapKey_inj c.2 (nul_notMem_of_commit hc)).mp h
        exact hne ⟨h₁.symm, h₂.symm⟩
      change ((s.sourceMapSets.set _ _).get? _).bind _ = _
      rw [JsMap.get?_set_of_ne hkey]
    · intro hk
      obtain ⟨c', hc', h⟩ := surplus_own ht hk
      obtain ⟨⟨h₁, h₂⟩, -⟩ := (sourceMapKey_inj c.2 hc').mp h
      exact hne ⟨h₁.symm, h₂.symm⟩

theorem drawProbeId_fresh {draws : ℕ → JsString} {id : JsString}
    (h : s.drawProbeId draws = some id) : s.probes.has id = false := by
  have := List.find?_some h
  simpa using this

/-- A probe of another service leaves no trace in the view when it is inserted. -/
theorem live_insert {p : StoredProbe} {id : JsString} (hf : s.probes.has id = false)
    (h : p.liveIn sc sv = false) :
    (s.probes.set id p).values.filter (StoredProbe.liveIn sc sv) =
      s.probes.values.filter (StoredProbe.liveIn sc sv) := by
  have hk : id ∉ s.probes.keys := fun hm => by
    rw [JsMap.has_eq_true_iff.mpr hm] at hf
    cases hf
  rw [JsMap.values_set_of_notMem hk, List.filter_append]
  simp [h]

/-- A service whose version is not raised has the same view after a draw of
another service's version. -/
theorem view_increment_other (hne : ¬(scope = sc ∧ serviceId = sv)) :
    (s.incrementServiceVersion serviceId scope).view sc sv = s.view sc sv := by
  refine ServiceView.mk.injEq .. |>.mpr ⟨?_, rfl, rfl⟩
  rw [serviceVersion_increment, if_neg hne, Nat.add_zero]

/-- **What one change does to the view of a service.** -/
theorem Change.view (sc : ResourceScope) (sv : JsString) (hs : Indexed s) (hv : r.Valid)
    (h : Change cfg now scope r s t) :
    ViewChange now ((sc, sv) ∈ s.raised scope r) (s.view sc sv) (t.view sc sv) := by
  cases h with
  | expire =>
    rw [view_expireDueProbes]
    exact .expire
  | refresh serviceId => exact .of_eq (view_of_core (core_refreshServiceCapabilities serviceId))
  | touch serviceId => exact .same
  | failCreate draws input isCreate =>
    subst isCreate
    by_cases hne : scope = sc ∧ input.serviceId = sv
    · refine .raise (by simp [raised, hne]) ?_
      change s.serviceVersion sc sv < _
      rw [view, serviceVersion_increment, if_pos hne]
      exact Nat.lt_succ_self _
    · exact .of_eq (view_increment_other hne)
  | create draws input compiled id probe isCreate compiles drawn parsed =>
    subst isCreate
    obtain ⟨hid, -, hsid, -⟩ := newDefinition_parsed parsed
    obtain ⟨ce, body, -, -, hcomp⟩ := compileProbeInput_eq_ok compiles
    have hservice : probe.serviceId = input.serviceId := by
      rw [hcomp, serviceId_of_createInput hv] at hsid
      exact (Option.some.inj hsid).symm
    by_cases hne : scope = sc ∧ input.serviceId = sv
    · refine .raise (by simp [raised, hne]) ?_
      change s.serviceVersion sc sv < (s.incrementServiceVersion input.serviceId scope).serviceVersion sc sv
      rw [serviceVersion_increment, if_pos hne]
      exact Nat.lt_succ_self _
    · refine .of_eq (Eq.trans ?_ (view_increment_other hne))
      refine ServiceView.mk.injEq .. |>.mpr ⟨rfl, ?_, rfl⟩
      refine live_insert (hid ▸ drawProbeId_fresh drawn) ?_
      simp only [StoredProbe.liveIn, hservice]
      rcases not_and_or.mp hne with h | h <;> simp [h]
  | deleteExpired id stored isDelete found own expired =>
    refine .of_eq (ServiceView.mk.injEq .. |>.mpr ⟨rfl, ?_, rfl⟩)
    exact live_delete found (by simp [StoredProbe.liveIn, expired])
  | deleteLive id stored isDelete found own live =>
    subst isDelete
    have hown : s.ownProbe id scope = some stored := by simp [ownProbe, found, own]
    by_cases hne : scope = sc ∧ stored.probe.serviceId = sv
    · refine .raise (by simp only [raised, hown, live]; simp [hne]) ?_
      change s.serviceVersion sc sv <
        (s.incrementServiceVersion stored.probe.serviceId scope).serviceVersion sc sv
      rw [serviceVersion_increment, if_pos hne]
      exact Nat.lt_succ_self _
    · refine .of_eq (Eq.trans ?_ (view_increment_other hne))
      refine ServiceView.mk.injEq .. |>.mpr ⟨rfl, live_delete found ?_, rfl⟩
      simp only [StoredProbe.liveIn, own]
      rcases not_and_or.mp hne with h | h <;> simp [h]
  | claim serviceId commitSha uploaderId isStatus incomplete =>
    refine .of_eq ?_
    simp only [clearForeignMaps]
    split
    · exact view_congr rfl rfl rfl
    · next m hm =>
      split
      · exact view_congr rfl rfl rfl
      · have hc : m.complete = false := by simpa [hm] using incomplete
        exact view_set_incomplete incomplete (by exact hc) rfl rfl rfl
  | renew => exact .of_eq (view_congr rfl rfl rfl)
  | upload input isUpload leased =>
    rcases hl : s.sourceMapLeases.get? (sourceMapKey scope input.serviceId input.commitSha) with
      - | l
    · rw [JsMap.has, hl] at leased
      cases leased
    · exact .of_eq (view_set_incomplete (hs.leases _ _ hl) rfl rfl rfl rfl)
  | complete serviceId commitSha uploaderId isComplete marked =>
    subst isComplete marked
    obtain ⟨hid, hc, -⟩ := hv
    by_cases hne : scope = sc ∧ serviceId = sv
    · refine .raise (by simp [raised, hne]) ?_
      have := serviceVersion_increment serviceId scope sc sv
        (s.markComplete now serviceId commitSha scope)
      rw [if_pos hne] at this
      simp only [BrokerState.view, serviceVersion, (dropSourceMaps_frame _ _).2]
      exact (Nat.lt_succ_self _).trans_eq this.symm
    · exact .of_eq (view_complete_other hs hid hc hne)
  | report => exact .same
  | event input e => exact .of_eq (view_of_core (core_ingestEvent e))
  | register input => exact .of_eq (view_of_core (core_registerNativeAgent input))
  | replace agentId instances allowed =>
    exact .of_eq (view_of_core (core_replaceNativeInstances agentId instances allowed))
  | prune => exact .same
  | health => exact .same
  | nativeEvent input i stored e => exact .of_eq (view_of_core (core_ingestNativeEvent input e))
  | touchNative input => exact .of_eq (view_of_core (core_touchNativeService input))

/-! ### Requests -/

/-- The version and content of a service, as functions of the state. -/
abbrev ServiceAdvances (sc : ResourceScope) (sv : JsString) : BrokerState → BrokerState → Prop :=
  Advances (fun s => (s.view sc sv).version) fun s => (s.view sc sv).content

/-- **A request advances the view of every service.** -/
theorem handle_advances (hs : Indexed s) (hv : r.Valid) :
    ServiceAdvances sc sv s (s.handle cfg now scope r).1 := by
  have h := handle_changes cfg now scope r s
  generalize (s.handle cfg now scope r).1 = t at h ⊢
  suffices Indexed t ∧ ServiceAdvances sc sv s t from this.2
  induction h with
  | refl => exact ⟨hs, .refl s⟩
  | tail _ hc ih =>
    obtain ⟨hi, ha⟩ := ih
    have hstep := (Change.view sc sv hi hv hc).advances
    exact ⟨hi.change hv hc, ha.trans ⟨hstep.le, hstep.content_eq⟩⟩

/-- A request that does not concern a service leaves its view or expires it. -/
theorem handle_view (cfg : Config) (now : ℕ) (hs : Indexed s) (hv : r.Valid) (hn : (sc, sv) ∉ s.raised scope r) :
    (s.handle cfg now scope r).1.view sc sv = s.view sc sv ∨
      (s.handle cfg now scope r).1.view sc sv = (s.view sc sv).expire now := by
  have settle : ∀ {t u : BrokerState}, (sc, sv) ∉ t.raised scope r → Indexed t →
      Change cfg now scope r t u →
      u.view sc sv = t.view sc sv ∨ u.view sc sv = (t.view sc sv).expire now := by
    intro t u hnt ht hc
    have := Change.view sc sv ht hv hc
    generalize u.view sc sv = w at this ⊢
    cases this with
    | same => exact Or.inl rfl
    | expire => exact Or.inr rfl
    | raise h => exact absurd h hnt
  by_cases hdel : ∃ id, r = .deleteProbe id
  · obtain ⟨id, rfl⟩ := hdel
    obtain h | h : _ ∨ Change cfg now scope (.deleteProbe id) s _ := deleteProbe_change id
    · exact Or.inl (congrArg (BrokerState.view sc sv) h)
    · exact settle hn hs h
  · have hr : ∀ t : BrokerState, t.raised scope r = s.raised scope r := by
      intro t
      cases r with
      | deleteProbe id => exact absurd ⟨id, rfl⟩ hdel
      | _ => rfl
    have h := handle_changes cfg now scope r s
    generalize (s.handle cfg now scope r).1 = t at h ⊢
    suffices Indexed t ∧ (t.view sc sv = s.view sc sv ∨ t.view sc sv = (s.view sc sv).expire now)
      from this.2
    induction h with
    | refl => exact ⟨hs, Or.inl rfl⟩
    | tail _ hc ih =>
      obtain ⟨hi, hview⟩ := ih
      refine ⟨hi.change hv hc, ?_⟩
      rcases settle (hr _ ▸ hn) hi hc with h | h <;> rw [h] <;> rcases hview with h' | h' <;>
        rw [h'] <;> simp [ServiceView.expire_self]

end BrokerState
