/-
LiveProbe/Retention.lean

Which source maps of a service survive a completion.

The sets are sorted by their timestamps, then by their keys, and those beyond
the fifth are dropped, whichever was completed just now.  Its rank is what counts
(`aheadOf`): a clock that went back, or five sets of the same instant with greater
keys, and the set is dropped by its own completion.
-/
import LiveProbe.SourceMapLease
import LiveProbe.StableSort

open JsString BrokerState

/-! ### The order -/

namespace Broker

variable {cfg : Config} {now : ℕ}

/-- `localeCompare` orders the texts. -/
structure LocaleOrder (cfg : Config) : Prop where
  trans : ∀ a b c, cfg.localeLe a b = true → cfg.localeLe b c = true → cfg.localeLe a c = true
  total : ∀ a b, (cfg.localeLe a b || cfg.localeLe b a) = true

/-- The instant of a set's last update. -/
def updatedAt (set : SourceMapSet) : ℤ := (IsoDate.dateParse set.updatedAt).getD 0

/-- `retainedLe` on sets whose timestamps are read. -/
def newestFirst (cfg : Config) (left right : JsString × SourceMapSet) : Bool :=
  if updatedAt left.2 = updatedAt right.2 then cfg.localeLe right.1 left.1
  else decide (updatedAt right.2 < updatedAt left.2)

/-- The timestamp of a set is read. -/
def Dated (set : SourceMapSet) : Prop := IsoDate.dateParse set.updatedAt = some (updatedAt set)

theorem dated_of_isSome {set : SourceMapSet} (h : (IsoDate.dateParse set.updatedAt).isSome = true) : Dated set := by
  obtain ⟨t, ht⟩ := Option.isSome_iff_exists.mp h
  rw [Dated, updatedAt, ht]
  rfl

theorem retainedLe_eq {left right : JsString × SourceMapSet} (hl : Dated left.2) (hr : Dated right.2) :
    retainedLe cfg left right = newestFirst cfg left right := by
  rw [retainedLe, hl, hr, newestFirst]

theorem LocaleOrder.newestFirst_trans (h : LocaleOrder cfg) (a b c : JsString × SourceMapSet)
    (hab : newestFirst cfg a b = true) (hbc : newestFirst cfg b c = true) : newestFirst cfg a c = true := by
  unfold newestFirst at hab hbc ⊢
  by_cases hac : updatedAt a.2 = updatedAt c.2
  · rw [if_pos hac]
    by_cases h₁ : updatedAt a.2 = updatedAt b.2
    · rw [if_pos h₁] at hab
      rw [if_pos (h₁.symm.trans hac)] at hbc
      exact h.trans _ _ _ hbc hab
    · rw [if_neg h₁, decide_eq_true_eq] at hab
      rw [if_neg fun h₂ => h₁ (hac.trans h₂.symm), decide_eq_true_eq] at hbc
      omega
  · rw [if_neg hac, decide_eq_true_eq]
    have weaken : ∀ x y : JsString × SourceMapSet,
        (if updatedAt x.2 = updatedAt y.2 then cfg.localeLe y.1 x.1 else decide (updatedAt y.2 < updatedAt x.2)) =
          true → updatedAt y.2 ≤ updatedAt x.2 := by
      intro x y hxy
      split at hxy
      · next heq => exact heq.ge
      · exact (of_decide_eq_true hxy).le
    have h₁ := weaken a b hab
    have h₂ := weaken b c hbc
    omega

theorem LocaleOrder.newestFirst_total (h : LocaleOrder cfg) (a b : JsString × SourceMapSet) :
    (newestFirst cfg a b || newestFirst cfg b a) = true := by
  unfold newestFirst
  by_cases hab : updatedAt a.2 = updatedAt b.2
  · rw [if_pos hab, if_pos hab.symm]
    exact h.total _ _
  · rw [if_neg hab, if_neg fun h => hab h.symm, Bool.or_eq_true, decide_eq_true_eq, decide_eq_true_eq]
    omega

theorem updatedAt_le_of_newestFirst {a b : JsString × SourceMapSet} (h : newestFirst cfg a b = true) :
    updatedAt b.2 ≤ updatedAt a.2 := by
  unfold newestFirst at h
  split at h
  · next heq => exact heq.ge
  · exact (of_decide_eq_true h).le

/-- The sets of a service. -/
def ofService (scope : ResourceScope) (serviceId : JsString) (e : JsString × SourceMapSet) : Bool :=
  e.2.scope = scope && e.2.serviceId = serviceId

/-- What goes ahead of a set of this key and instant, of those that stand before it
in the map. -/
def aheadBefore (cfg : Config) (now : ℕ) (key : JsString) (e : JsString × SourceMapSet) : Bool :=
  if updatedAt e.2 = now then cfg.localeLe key e.1 else decide ((now : ℤ) < updatedAt e.2)

/-- What goes ahead of it of those that stand after it. -/
def aheadAfter (cfg : Config) (now : ℕ) (key : JsString) (e : JsString × SourceMapSet) : Bool :=
  if updatedAt e.2 = now then !cfg.localeLe e.1 key else decide ((now : ℤ) < updatedAt e.2)

/-! ### What is retained -/

/-- The sets after a completion: no more than five of the service, the completed
one among them, and none dropped that is newer than one that is kept. -/
structure Retained (scope : ResourceScope) (serviceId key : JsString)
    (marked kept : JsMap JsString SourceMapSet) : Prop where
  bounded : (kept.filter fun k set => ofService scope serviceId (k, set)).size ≤ sourceMapCommitsPerService
  completed : kept.has key = true
  newest : ∀ k set k' set', ofService scope serviceId (k, set) = true → marked.get? k = some set →
    kept.get? k = none → ofService scope serviceId (k', set') = true → kept.get? k' = some set' →
    ∃ t t', IsoDate.dateParse set.updatedAt = some t ∧ IsoDate.dateParse set'.updatedAt = some t' ∧ t ≤ t'

section

variable {scope : ResourceScope} {serviceId : JsString} {marked : JsMap JsString SourceMapSet}

/-- The sets of a service in the order in which they are retained. -/
def ranked (cfg : Config) (scope : ResourceScope) (serviceId : JsString) (marked : JsMap JsString SourceMapSet) :
    List (JsString × SourceMapSet) :=
  (marked.entries.filter (ofService scope serviceId)).mergeSort (newestFirst cfg)

theorem surplusSourceMaps_eq (hdated : ∀ e ∈ marked.entries, Dated e.2) :
    surplusSourceMaps cfg serviceId scope marked =
      ((ranked cfg scope serviceId marked).drop sourceMapCommitsPerService).map Prod.fst := by
  have hagree : ∀ a ∈ marked.entries.filter (ofService scope serviceId),
      ∀ b ∈ marked.entries.filter (ofService scope serviceId), retainedLe cfg a b = newestFirst cfg a b := by
    intro a ha b hb
    exact retainedLe_eq (hdated a (List.mem_of_mem_filter ha)) (hdated b (List.mem_of_mem_filter hb))
  show (((marked.entries.filter (ofService scope serviceId)).mergeSort (retainedLe cfg)).drop _).map _ = _
  rw [List.mergeSort_congr hagree]
  rfl

theorem mem_ranked {e : JsString × SourceMapSet} :
    e ∈ ranked cfg scope serviceId marked ↔ marked.get? e.1 = some e.2 ∧ ofService scope serviceId e = true := by
  rw [ranked, List.mem_mergeSort, List.mem_filter, JsMap.get?_eq_some_iff]

theorem nodup_ranked : ((ranked cfg scope serviceId marked).map Prod.fst).Nodup := by
  have hperm := (List.mergeSort_perm (marked.entries.filter (ofService scope serviceId)) (newestFirst cfg)).map
    Prod.fst
  rw [ranked, hperm.nodup_iff]
  exact (List.filter_sublist.map Prod.fst).nodup marked.nodup

/-- A set of the service is kept when it is among the first five. -/
theorem notMem_surplus {e : JsString × SourceMapSet} (he : e ∈ ranked cfg scope serviceId marked) :
    e.1 ∉ ((ranked cfg scope serviceId marked).drop sourceMapCommitsPerService).map Prod.fst ↔
      e ∈ (ranked cfg scope serviceId marked).take sourceMapCommitsPerService := by
  have hsplit := List.take_append_drop sourceMapCommitsPerService (ranked cfg scope serviceId marked)
  have hnodup : ((ranked cfg scope serviceId marked).map Prod.fst).Nodup := nodup_ranked
  constructor
  · intro hkept
    rw [← hsplit, List.mem_append] at he
    exact he.resolve_right fun hdropped => hkept (List.mem_map_of_mem hdropped)
  · intro hkept hdropped
    rw [← hsplit, List.map_append, List.nodup_append] at hnodup
    exact hnodup.2.2 _ (List.mem_map_of_mem hkept) _ hdropped rfl

theorem bounded_of_dropped (hdated : ∀ e ∈ marked.entries, Dated e.2) :
    (((surplusSourceMaps cfg serviceId scope marked).foldl JsMap.delete marked).filter
      fun k set => ofService scope serviceId (k, set)).size ≤ sourceMapCommitsPerService := by
  rw [surplusSourceMaps_eq hdated, JsMap.foldl_delete, JsMap.filter_comm, JsMap.size, JsMap.entries_filter,
    JsMap.entries_filter]
  have hperm := List.mergeSort_perm (marked.entries.filter (ofService scope serviceId)) (newestFirst cfg)
  refine (hperm.filter _).length_eq.symm.le.trans (List.length_filter_le_of_drop fun e he => ?_)
  rw [decide_eq_false_iff_not, not_not]
  exact List.mem_map_of_mem he

variable (cfg scope serviceId marked) in
/-- A surplus set is gone, every other is as it was. -/
theorem get?_dropped (k : JsString) :
    (k ∈ surplusSourceMaps cfg serviceId scope marked ∧
      ((surplusSourceMaps cfg serviceId scope marked).foldl JsMap.delete marked).get? k = none) ∨
    (k ∉ surplusSourceMaps cfg serviceId scope marked ∧
      ((surplusSourceMaps cfg serviceId scope marked).foldl JsMap.delete marked).get? k = marked.get? k) := by
  rw [JsMap.get?_foldl_delete]
  by_cases hk : k ∈ surplusSourceMaps cfg serviceId scope marked
  · rw [if_pos hk]
    exact .inl ⟨hk, rfl⟩
  · rw [if_neg hk]
    exact .inr ⟨hk, rfl⟩

theorem newest_of_dropped (h : LocaleOrder cfg) (hdated : ∀ e ∈ marked.entries, Dated e.2)
    {k k' : JsString} {set set' : SourceMapSet} (hset : marked.get? k = some set)
    (hgone : ((surplusSourceMaps cfg serviceId scope marked).foldl JsMap.delete marked).get? k = none)
    (hown' : ofService scope serviceId (k', set') = true)
    (hkept : ((surplusSourceMaps cfg serviceId scope marked).foldl JsMap.delete marked).get? k' = some set') :
    updatedAt set ≤ updatedAt set' := by
  -- the dropped set is beyond the fifth
  rcases get?_dropped cfg scope serviceId marked k with ⟨hsurplus, -⟩ | ⟨-, hget⟩
  swap
  · rw [hget, hset] at hgone
    cases hgone
  rw [surplusSourceMaps_eq hdated] at hsurplus
  obtain ⟨⟨key, other⟩, hdropped, rfl⟩ := List.mem_map.mp hsurplus
  obtain ⟨hother, -⟩ := mem_ranked.mp (List.mem_of_mem_drop hdropped)
  obtain rfl : other = set := Option.some.inj (hother.symm.trans hset)
  -- and the kept one is among them
  rcases get?_dropped cfg scope serviceId marked k' with ⟨-, hget⟩ | ⟨hnot, hget⟩
  · rw [hget] at hkept
    cases hkept
  rw [hget] at hkept
  rw [surplusSourceMaps_eq hdated] at hnot
  have htaken := (notMem_surplus (mem_ranked.mpr ⟨hkept, hown'⟩)).mp hnot
  have hsorted : (ranked cfg scope serviceId marked).Pairwise fun a b => newestFirst cfg a b = true :=
    List.pairwise_mergeSort h.newestFirst_trans h.newestFirst_total _
  exact updatedAt_le_of_newestFirst (List.le_of_mem_take_drop hsorted _ htaken hdropped)

end

/-! ### The completed set -/

/-- How many sets of the service go ahead of the one that is completed. -/
def aheadOf (cfg : Config) (now : ℕ) (scope : ResourceScope) (serviceId key : JsString)
    (sets : JsMap JsString SourceMapSet) : ℕ :=
  ((sets.before key).filter (ofService scope serviceId)).countP (aheadBefore cfg now key) +
    ((sets.after key).filter (ofService scope serviceId)).countP (aheadAfter cfg now key)

theorem aheadBefore_eq {key : JsString} {set : SourceMapSet} (hset : updatedAt set = now) :
    (fun e => newestFirst cfg e (key, set)) = aheadBefore cfg now key := by
  funext e
  rw [newestFirst, aheadBefore, hset]

theorem aheadAfter_eq {key : JsString} {set : SourceMapSet} (hset : updatedAt set = now) :
    (fun e => !newestFirst cfg (key, set) e) = aheadAfter cfg now key := by
  funext e
  rw [newestFirst, aheadAfter, hset]
  by_cases heq : updatedAt e.2 = now
  · rw [if_pos heq, if_pos heq.symm]
  · rw [if_neg heq, if_neg fun h => heq h.symm, ← decide_not]
    apply decide_eq_decide.mpr
    omega

variable {sets : JsMap JsString SourceMapSet} {scope : ResourceScope} {serviceId key : JsString}
  {set : SourceMapSet}

theorem completed_iff (h : LocaleOrder cfg) (hset : updatedAt set = now)
    (hown : ofService scope serviceId (key, set) = true)
    (hdated : ∀ e ∈ (sets.set key set).entries, Dated e.2) :
    key ∉ surplusSourceMaps cfg serviceId scope (sets.set key set) ↔
      aheadOf cfg now scope serviceId key sets < sourceMapCommitsPerService := by
  have hranked : (key, set) ∈ ranked cfg scope serviceId (sets.set key set) :=
    mem_ranked.mpr ⟨JsMap.get?_set_self _ _ _, hown⟩
  have hsplit : (sets.set key set).entries.filter (ofService scope serviceId) =
      (sets.before key).filter (ofService scope serviceId) ++
        (key, set) :: (sets.after key).filter (ofService scope serviceId) := by
    rw [JsMap.entries_set_split, List.filter_append, List.filter_cons_of_pos hown]
  have hnodup : (((sets.set key set).entries.filter (ofService scope serviceId)).map Prod.fst).Nodup :=
    (List.filter_sublist.map Prod.fst).nodup (sets.set key set).nodup
  rw [surplusSourceMaps_eq hdated, notMem_surplus hranked]
  rw [hsplit] at hnodup
  have hrank := List.mem_take_mergeSort h.newestFirst_trans h.newestFirst_total Prod.fst hnodup
    sourceMapCommitsPerService
  rw [aheadBefore_eq hset, aheadAfter_eq hset, ← hsplit] at hrank
  rw [aheadOf, ← hrank]
  show (key, set) ∈ (ranked cfg scope serviceId (sets.set key set)).take _ ↔
    key ∈ ((ranked cfg scope serviceId (sets.set key set)).take _).map Prod.fst
  constructor
  · intro hmem
    exact List.mem_map_of_mem hmem
  · intro hmem
    obtain ⟨⟨key', other⟩, hother, rfl⟩ := List.mem_map.mp hmem
    obtain ⟨hget, -⟩ := mem_ranked.mp (List.mem_of_mem_take hother)
    rw [JsMap.get?_set_self, Option.some.injEq] at hget
    exact hget ▸ hother

end Broker

/-! ### Every completion -/

/-- The clock stays within what a `Date` may hold; beyond it no timestamp is written. -/
def Limits.dated : Limits := { Limits.schemas with clock := fun now => now ≤ IsoDate.maxTime }

namespace BrokerState

open Broker Protocol

variable {cfg : Config} {now : ℕ} {scope : ResourceScope} {serviceId commitSha uploaderId : JsString}
  {s : BrokerState}

theorem dated_of_stamp {set : SourceMapSet} (h : Limits.dated.Stamp set.updatedAt) : Dated set := by
  apply dated_of_isSome
  rcases h with hdatetime | ⟨n, hn, heq⟩
  · exact IsoDate.isSome_dateParse_of_isDatetime hdatetime
  · rw [heq, IsoDate.dateParse_toISOString_of_le hn]
    rfl

/-- The set a completion marks. -/
def completedSet (now : ℕ) (scope : ResourceScope) (serviceId commitSha : JsString) (s : BrokerState) :
    SourceMapSet :=
  { s.sourceMapSetOrNew now serviceId commitSha scope with
    complete := true, updatedAt := IsoDate.toISOString now }

variable (scope serviceId commitSha s) in
theorem updatedAt_completedSet (hnow : now ≤ IsoDate.maxTime) :
    Dated (s.completedSet now scope serviceId commitSha) ∧
      Broker.updatedAt (s.completedSet now scope serviceId commitSha) = now := by
  have hread : IsoDate.dateParse (s.completedSet now scope serviceId commitSha).updatedAt = some (now : ℤ) :=
    IsoDate.dateParse_toISOString_of_le hnow
  have hvalue : Broker.updatedAt (s.completedSet now scope serviceId commitSha) = now := by
    rw [Broker.updatedAt, hread]
    rfl
  exact ⟨hread.trans (congrArg some hvalue.symm), hvalue⟩

/-- A set is of the service whose key it has. -/
theorem ofService_completedSet (hi : Indexed s) (hsha : sourceCommitSchema commitSha = some commitSha) :
    ofService scope serviceId (sourceMapKey scope serviceId commitSha,
      s.completedSet now scope serviceId commitSha) = true := by
  have hown : (s.sourceMapSetOrNew now serviceId commitSha scope).scope = scope ∧
      (s.sourceMapSetOrNew now serviceId commitSha scope).serviceId = serviceId := by
    unfold sourceMapSetOrNew
    rcases hget : s.sourceMapSets.get? (sourceMapKey scope serviceId commitSha) with - | set
    · exact ⟨rfl, rfl⟩
    · have hindexed := hi.sourceMapSets _ _ hget
      obtain ⟨⟨hscope, hservice⟩, -⟩ := (sourceMapKey_inj (Commit.nul_notMem_commitSha hsha)
        (Commit.nul_notMem_commitSha hindexed.commitSha)).mp hindexed.key
      exact ⟨hscope.symm, hservice.symm⟩
  simp only [ofService, completedSet, hown, decide_true, Bool.and_self]

theorem sourceMapSets_completeSourceMaps
    (hok : (s.completeSourceMaps cfg now serviceId commitSha uploaderId scope).2 = .ok ()) :
    (s.completeSourceMaps cfg now serviceId commitSha uploaderId scope).1.sourceMapSets =
      (surplusSourceMaps cfg serviceId scope (s.markComplete now serviceId commitSha scope).sourceMapSets).foldl
        JsMap.delete (s.markComplete now serviceId commitSha scope).sourceMapSets := by
  unfold completeSourceMaps at hok ⊢
  rcases hassert : s.assertSourceMapUploader now serviceId commitSha uploaderId scope with e | t
  · rw [hassert] at hok
    cases hok
  · obtain ⟨-, rfl⟩ := assertSourceMapUploader_eq_ok hassert
    dsimp only
    rw [dropSourceMaps_eq]
    rfl

section

variable {p : Process}
  (hp : Reached (Process.next cfg) (fun _ e => Process.Valid e ∧ Process.Within Limits.dated e) {} p)
  (hlocale : LocaleOrder cfg) (hnow : now ≤ IsoDate.maxTime)
  (hvalid : (Request.completeSourceMaps serviceId commitSha uploaderId).Valid)

include hp hnow in
theorem dated_markComplete :
    ∀ e ∈ (p.state.markComplete now serviceId commitSha scope).sourceMapSets.entries, Dated e.2 := by
  obtain ⟨-, hr⟩ := Process.records hp
  intro e he
  rcases JsMap.mem_entries_set.mp he with ⟨-, heq⟩ | ⟨-, hmem⟩
  · rw [heq]
    exact (updatedAt_completedSet scope serviceId commitSha p.state hnow).1
  · exact dated_of_stamp (hr.sourceMapSets _ _ (JsMap.get?_eq_some_iff.mpr hmem)).updatedAt

include hp hlocale hnow hvalid in
theorem has_completed_iff (hok : (p.state.completeSourceMaps cfg now serviceId commitSha uploaderId scope).2 = .ok ()) :
    (p.state.completeSourceMaps cfg now serviceId commitSha uploaderId scope).1.sourceMapSets.has
        (sourceMapKey scope serviceId commitSha) = true ↔
      aheadOf cfg now scope serviceId (sourceMapKey scope serviceId commitSha) p.state.sourceMapSets <
        sourceMapCommitsPerService := by
  obtain ⟨hi, -⟩ := Process.records hp
  rw [← completed_iff hlocale (updatedAt_completedSet scope serviceId commitSha p.state hnow).2
    (ofService_completedSet hi hvalid.2.1) (dated_markComplete hp hnow), sourceMapSets_completeSourceMaps hok, JsMap.has]
  rcases get?_dropped cfg scope serviceId (p.state.markComplete now serviceId commitSha scope).sourceMapSets
      (sourceMapKey scope serviceId commitSha) with ⟨hsurplus, hget⟩ | ⟨hnot, hget⟩
  · rw [hget]
    exact iff_of_false Bool.false_ne_true fun h => h hsurplus
  · rw [hget]
    refine iff_of_true ?_ hnot
    show ((p.state.sourceMapSets.set _ _).get? _).isSome = true
    rw [JsMap.get?_set_self]
    rfl

include hp hlocale hnow hvalid in
/-- **A completion keeps its own set unless five others go ahead of it.** -/
theorem completeSourceMaps_retained_iff
    (hok : (p.state.completeSourceMaps cfg now serviceId commitSha uploaderId scope).2 = .ok ()) :
    Retained scope serviceId (sourceMapKey scope serviceId commitSha)
        (p.state.markComplete now serviceId commitSha scope).sourceMapSets
        (p.state.completeSourceMaps cfg now serviceId commitSha uploaderId scope).1.sourceMapSets ↔
      aheadOf cfg now scope serviceId (sourceMapKey scope serviceId commitSha) p.state.sourceMapSets <
        sourceMapCommitsPerService := by
  have hdated : ∀ e ∈ (p.state.markComplete now serviceId commitSha scope).sourceMapSets.entries, Dated e.2 :=
    dated_markComplete hp hnow
  rw [← has_completed_iff hp hlocale hnow hvalid hok]
  refine ⟨Retained.completed, fun hhas => ⟨?_, hhas, ?_⟩⟩
  · rw [sourceMapSets_completeSourceMaps hok]
    exact bounded_of_dropped hdated
  · rw [sourceMapSets_completeSourceMaps hok]
    intro k set k' set' _ hset hgone hown' hkept
    have hset' : (p.state.markComplete now serviceId commitSha scope).sourceMapSets.get? k' = some set' := by
      rcases get?_dropped cfg scope serviceId (p.state.markComplete now serviceId commitSha scope).sourceMapSets
          k' with ⟨-, hget⟩ | ⟨-, hget⟩
      · rw [hget] at hkept
        cases hkept
      · exact hget.symm.trans hkept
    exact ⟨_, _, hdated _ (JsMap.get?_eq_some_iff.mp hset), hdated _ (JsMap.get?_eq_some_iff.mp hset'),
      newest_of_dropped hlocale hdated hset hgone hown' hkept⟩

end

end BrokerState

/-! ### Six completions at one instant -/

namespace Broker

theorem codeUnitLe_total (a b : JsString) : (codeUnitLe a b || codeUnitLe b a) = true := by
  induction a generalizing b with
  | nil => rfl
  | cons c s ih =>
    cases b with
    | nil => rfl
    | cons d t =>
      simp only [codeUnitLe, Bool.or_eq_true, Bool.and_eq_true, decide_eq_true_eq]
      rcases Nat.lt_trichotomy c.toNat d.toNat with hlt | heq | hlt
      · exact .inl (.inl (UInt16.lt_iff_toNat_lt.mpr hlt))
      · obtain rfl : c = d := UInt16.toNat_inj.mp heq
        rcases Bool.or_eq_true_iff.mp (ih t) with h | h
        · exact .inl (.inr ⟨rfl, h⟩)
        · exact .inr (.inr ⟨rfl, h⟩)
      · exact .inr (.inl (UInt16.lt_iff_toNat_lt.mpr hlt))

theorem codeUnitLe_trans (a b c : JsString) (hab : codeUnitLe a b = true) (hbc : codeUnitLe b c = true) :
    codeUnitLe a c = true := by
  induction a generalizing b c with
  | nil => rfl
  | cons x s ih =>
    cases b with
    | nil => cases hab
    | cons y t =>
      cases c with
      | nil => cases hbc
      | cons z u =>
        simp only [codeUnitLe, Bool.or_eq_true, Bool.and_eq_true, decide_eq_true_eq] at hab hbc ⊢
        rcases hab with hxy | ⟨rfl, hst⟩
        · rcases hbc with hyz | ⟨rfl, -⟩
          · exact .inl (UInt16.lt_trans hxy hyz)
          · exact .inl hxy
        · rcases hbc with hyz | ⟨rfl, htu⟩
          · exact .inl hyz
          · exact .inr ⟨rfl, ih t u hst htu⟩

end Broker

namespace Sample

open Broker

/-- A commit of equal digits. -/
def sha (digit : Char) : JsString := List.replicate 7 (unit digit)

/-- An agent claims a commit, at the start of the epoch. -/
def claim (digit : Char) : Request := .sourceMapStatus (js "api") (sha digit) (js "agent")

/-- It uploads a map of the commit. -/
def upload (digit : Char) : Request :=
  .uploadSourceMap { serviceId := js "api", commitSha := sha digit, uploaderId := js "agent"
                     mapPath := js "a.js.map", map := [(js "file", .str (js "a.js"))] }

/-- Maps of these commits have been uploaded, and the commit of ones is claimed. -/
def claimed (digits : List Char) : Process :=
  ((digits.flatMap (fun digit => [claim digit, upload digit]) ++ [claim '1']).map
    (ProcessEvent.request 0 scope)).foldl (Process.next config) {}

theorem parts_valid : Protocol.serviceIdSchema (js "api") = some (js "api") ∧
    Protocol.agentIdSchema (js "agent") = some (js "agent") ∧
    sourceMapPathSchema (js "a.js.map") = some (js "a.js.map") := by
  decide

theorem sha_valid {digit : Char} (h : digit ∈ ['1', '2', '3', '4', '5', '6']) :
    Protocol.sourceCommitSchema (sha digit) = some (sha digit) := by
  simp only [List.mem_cons, List.not_mem_nil, or_false] at h
  rcases h with rfl | rfl | rfl | rfl | rfl | rfl <;> decide

theorem claimed_reached {digits : List Char} (h : digits ⊆ ['1', '2', '3', '4', '5', '6']) :
    Reached (Process.next config) (fun _ e => Process.Valid e ∧ Process.Within Limits.dated e) {} (claimed digits) := by
  apply Reached.foldl .init
  apply AllOk.of_forall
  obtain ⟨hservice, hagent, hpath⟩ := parts_valid
  intro e he _
  obtain ⟨r, hr, rfl⟩ := List.mem_map.mp he
  refine ⟨?_, Nat.zero_le _, trivial, fun _ _ _ => trivial, fun _ _ _ _ => trivial, False.elim, False.elim⟩
  rcases List.mem_append.mp hr with hr | hr
  · obtain ⟨digit, hdigit, hr⟩ := List.mem_flatMap.mp hr
    rcases List.mem_pair.mp hr with rfl | rfl
    · exact ⟨hservice, sha_valid (h hdigit), hagent⟩
    · exact ⟨hservice, sha_valid (h hdigit), hagent, hpath⟩
  · rw [List.mem_singleton.mp hr]
    exact ⟨hservice, sha_valid List.mem_cons_self, hagent⟩

theorem localeOrder : LocaleOrder config where
  trans := codeUnitLe_trans
  total := codeUnitLe_total

theorem complete_valid : (Request.completeSourceMaps (js "api") (sha '1') (js "agent")).Valid :=
  ⟨parts_valid.1, sha_valid List.mem_cons_self, parts_valid.2.1⟩

theorem claimed_completes : ∀ digits ∈ [['2'], ['2', '3', '4', '5', '6']],
    ((claimed digits).state.completeSourceMaps config 0 (js "api") (sha '1') (js "agent") scope).2 = .ok () := by
  decide

theorem second_retained :
    Retained scope (js "api") (sourceMapKey scope (js "api") (sha '1'))
        ((claimed ['2']).state.markComplete 0 (js "api") (sha '1') scope).sourceMapSets
        ((claimed ['2']).state.completeSourceMaps config 0 (js "api") (sha '1') (js "agent") scope).1.sourceMapSets ↔
      aheadOf config 0 scope (js "api") (sourceMapKey scope (js "api") (sha '1')) (claimed ['2']).state.sourceMapSets <
        sourceMapCommitsPerService :=
  completeSourceMaps_retained_iff (claimed_reached (by simp)) localeOrder (Nat.zero_le _) complete_valid
    (claimed_completes _ List.mem_cons_self)

/-- The sixth set of an instant is dropped by its own completion. -/
theorem sixth_dropped :
    ¬ ∀ (cfg : Config) (p : Process) (now : ℕ) (scope : ResourceScope) (serviceId commitSha uploaderId : JsString),
      Reached (Process.next cfg) (fun _ e => Process.Valid e ∧ Process.Within Limits.dated e) {} p →
      LocaleOrder cfg → now ≤ IsoDate.maxTime →
      (Request.completeSourceMaps serviceId commitSha uploaderId).Valid →
      (p.state.completeSourceMaps cfg now serviceId commitSha uploaderId scope).2 = .ok () →
      Retained scope serviceId (sourceMapKey scope serviceId commitSha)
        (p.state.markComplete now serviceId commitSha scope).sourceMapSets
        (p.state.completeSourceMaps cfg now serviceId commitSha uploaderId scope).1.sourceMapSets := by
  intro h
  have hreached := @claimed_reached ['2', '3', '4', '5', '6'] (by simp)
  have hok := claimed_completes _ (List.mem_cons_of_mem _ List.mem_cons_self)
  have hretained := h _ _ 0 _ _ _ _ hreached localeOrder (Nat.zero_le _) complete_valid hok
  have hahead := (has_completed_iff hreached localeOrder (Nat.zero_le _) complete_valid hok).mp hretained.completed
  exact absurd hahead (by decide)

end Sample
