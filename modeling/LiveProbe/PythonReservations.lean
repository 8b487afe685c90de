/-
LiveProbe/PythonReservations.lean

What the reservations of the Python agent come to, in whatever order callbacks
and worker make their steps.

The books of the agent balance (`Books`): the hits in flight of a state are its
reservations that stand, each of which a program or the queue has in hand; and a
state that reached its limit owes one notice, until it is appended or is lost.  A
program's share is what it has in hand and what it owes; what the queue holds is
a share as well.
-/
import LiveProbe.PythonProbes
import Mathlib.Data.Multiset.Count
import Mathlib.Data.Multiset.Replicate

namespace PythonAgent

open Interleaving

/-! ### One state -/

/-- One where the limit is reached. -/
def ProbeState.reached (state : ProbeState) : ℕ := if state.probe.hitLimit ≤ state.emitted then 1 else 0

/-- A state of which `n` reservations stand. -/
structure ProbeState.Sound (state : ProbeState) (n : ℕ) : Prop where
  inFlight : state.inFlight = n
  bounded : state.emitted + state.inFlight ≤ state.probe.hitLimit
  active : state.active = true → state.emitted < state.probe.hitLimit

namespace ProbeState

variable {state state' : ProbeState} {n : ℕ}

theorem Sound.new (probe : PlacedProbe) : Sound { probe } 0 := by
  have := probe.hitLimit_pos
  exact ⟨rfl, by show 0 + 0 ≤ probe.hitLimit; omega, fun _ => this⟩

theorem reached_new (probe : PlacedProbe) : reached { probe } = 0 := by
  have := probe.hitLimit_pos
  exact if_neg (by show ¬ probe.hitLimit ≤ 0; omega)

/-- Whoever leaves the accounts alone may only switch the state off. -/
theorem Sound.of_account (h : state.Sound n) (hprobe : state'.probe = state.probe)
    (hemitted : state'.emitted = state.emitted) (hinFlight : state'.inFlight = state.inFlight)
    (hactive : state'.active = true → state.active = true) : state'.Sound n := by
  constructor
  · rw [hinFlight, h.inFlight]
  · rw [hemitted, hinFlight, hprobe]
    exact h.bounded
  · rw [hemitted, hprobe]
    exact fun hon => h.active (hactive hon)

/-- A reservation is granted below the limit, and reaches nothing by itself. -/
theorem Sound.reserve (h : state.Sound n) (hreserve : state.reserve = some state') :
    state'.Sound (n + 1) ∧ state'.reached = state.reached := by
  unfold ProbeState.reserve at hreserve
  simp only [Option.ite_none_left_eq_some, Bool.or_eq_true, Bool.not_eq_true', decide_eq_true_eq, not_or,
    not_le, Option.some.injEq] at hreserve
  obtain ⟨⟨-, hroom⟩, rfl⟩ := hreserve
  refine ⟨⟨?_, ?_, h.active⟩, rfl⟩
  · show state.inFlight + 1 = _
    rw [h.inFlight]
    rfl
  · -- the guard left room for one more
    show state.emitted + (state.inFlight + 1) ≤ state.probe.hitLimit
    omega

/-- A state that is emitted from reaches its limit at most now. -/
theorem Sound.emit (h : state.Sound n) (hactive : state.active = true)
    (hroom : state.emitted + state.inFlight < state.probe.hitLimit) :
    state.emit.2.Sound n ∧ state.emit.2.reached = state.reached + if state.emit.1.2 then 1 else 0 := by
  have hbelow := h.active hactive
  have hnot : state.reached = 0 := if_neg (not_le.mpr hbelow)
  unfold ProbeState.emit
  split
  · -- the emission reaches the limit and switches the state off
    next hreached =>
    refine ⟨⟨h.inFlight, ?_, fun hoff => by cases hoff⟩, ?_⟩
    · show state.emitted + 1 + state.inFlight ≤ state.probe.hitLimit
      omega
    · rw [hnot]
      exact if_pos hreached
  · -- the limit is still ahead
    next hreached =>
    refine ⟨⟨h.inFlight, ?_, fun _ => not_le.mp hreached⟩, ?_⟩
    · show state.emitted + 1 + state.inFlight ≤ state.probe.hitLimit
      omega
    · rw [hnot]
      exact if_neg hreached

theorem emit_emitted (state : ProbeState) : state.emit.1.1 = true := by
  unfold ProbeState.emit
  split
  · rfl
  · rfl

/-- A state that reached its limit emitted. -/
theorem finish_reached {emits : Bool} (h : (state.finish emits).1.2 = true) :
    (state.finish emits).1.1 = true := by
  unfold ProbeState.finish at h ⊢
  dsimp only at h ⊢
  split at h
  · cases h
  · next hemits =>
    rw [if_neg hemits]
    exact emit_emitted _

/-- The limit is reached by an emission. -/
theorem count_reached (h : state.count.1.2 = true) : state.count.1.1 = true := by
  unfold ProbeState.count at h ⊢
  split at h
  · cases h
  · next hroom =>
    rw [if_neg hroom]
    exact emit_emitted _

/-- A reservation is given back, and the emission may be the last. -/
theorem Sound.finish (h : state.Sound (n + 1)) (emits : Bool) :
    (state.finish emits).2.Sound n ∧
      (state.finish emits).2.reached = state.reached + if (state.finish emits).1.2 then 1 else 0 := by
  have hinFlight := h.inFlight
  have hbounded := h.bounded
  push_cast at hinFlight
  -- the reservation is given back, with or without an emission
  have hsound : Sound { state with inFlight := state.inFlight - 1 } n := by
    refine ⟨?_, ?_, h.active⟩
    · show state.inFlight - 1 = n
      omega
    · show state.emitted + (state.inFlight - 1) ≤ state.probe.hitLimit
      omega
  unfold ProbeState.finish
  dsimp only
  split
  · exact ⟨hsound, rfl⟩
  · next hemits =>
    simp only [Bool.or_eq_true, Bool.not_eq_true', not_or, Bool.not_eq_false] at hemits
    refine hsound.emit hemits.2 ?_
    show state.emitted + (state.inFlight - 1) < state.probe.hitLimit
    omega

/-- A hit that is counted without a capture needs no reservation. -/
theorem Sound.count (h : state.Sound n) :
    state.count.2.Sound n ∧ state.count.2.reached = state.reached + if state.count.1.2 then 1 else 0 := by
  unfold ProbeState.count
  split
  · exact ⟨h, rfl⟩
  · next hroom =>
    simp only [Bool.or_eq_true, Bool.not_eq_true', decide_eq_true_eq, not_or, Bool.not_eq_false, not_le] at hroom
    exact h.emit hroom.1 hroom.2

end ProbeState

/-! ### Shares -/

/-- Reservations in hand, each with its state, and notices owed, by their state. -/
abbrev Share := Multiset (ℕ × ℕ) × Multiset ℕ

def held (o r : ℕ) : Share := ({(o, r)}, 0)

def owed (states : List ℕ) : Share := (0, states)

theorem owed_cons (o : ℕ) (states : List ℕ) : owed (o :: states) = owed [o] + owed states := rfl

def ProbeCandidate.share (candidate : ProbeCandidate) : Share :=
  match candidate.reservation with
  | none => 0
  | some r => held candidate.state r

def shares (candidates : List ProbeCandidate) : Share := (candidates.map ProbeCandidate.share).sum

/-- The states a lifecycle is to notify of their limit. -/
def Lifecycle.notices (lifecycle : Lifecycle) : List ℕ :=
  if lifecycle.action = .hitLimit then lifecycle.states else []

def Item.share : Item → Share
  | .hit candidates _ => shares candidates
  | .lifecycle l => owed l.notices

/-- What the queue has in hand. -/
def Agent.queued (s : Agent) : Share := (s.rawQueue.map Item.share).sum

/-! ### Notices -/

/-- The states of which a step appends `"hit-limit-reached"`. -/
def Seen.noticed : Seen → List ℕ
  | .appended o (.status _ .hitLimitReached _) => [o]
  | _ => []

/-- The states whose notice a step loses: on a full queue, or to an exception. -/
def Seen.lost : Seen → List ℕ
  | .full lifecycle => lifecycle.notices
  | .unnoticed o => [o]
  | _ => []

/-- How often `"hit-limit-reached"` was appended for the state. -/
def notices (t : List Seen) (o : ℕ) : ℕ := (t.flatMap Seen.noticed).count o

def losses (t : List Seen) (o : ℕ) : ℕ := (t.flatMap Seen.lost).count o

theorem notices_append (t t' : List Seen) (o : ℕ) : notices (t ++ t') o = notices t o + notices t' o := by
  rw [notices, List.flatMap_append, List.count_append]
  rfl

theorem losses_append (t t' : List Seen) (o : ℕ) : losses (t ++ t') o = losses t o + losses t' o := by
  rw [losses, List.flatMap_append, List.count_append]
  rfl

/-! ### The books -/

/-- A reservation of the state that is not finished. -/
def ProbeReservation.stands (o : ℕ) (reservation : ProbeReservation) : Bool :=
  reservation.state = o && !reservation.finished

section

variable {states : List ProbeState} {reservations reservations' : List ProbeReservation} {t : List Seen}
  {l l' : Share} {o r : ℕ}

theorem countP_reserved (o o' : ℕ) :
    (reservations ++ [({ state := o } : ProbeReservation)]).countP (ProbeReservation.stands o') =
      reservations.countP (ProbeReservation.stands o') + if o = o' then 1 else 0 := by
  rw [List.countP_append]
  by_cases h : o = o' <;> simp [ProbeReservation.stands, h]

/-- One fewer stands, of the state it was made for. -/
theorem countP_finished {reservation : ProbeReservation} (hr : reservations[r]? = some reservation)
    (hopen : reservation.finished = false) (o : ℕ) :
    reservations.countP (ProbeReservation.stands o) =
      (reservations.set r { reservation with finished := true }).countP (ProbeReservation.stands o) +
        if reservation.state = o then 1 else 0 := by
  obtain ⟨hlt, hget⟩ := List.getElem?_eq_some_iff.mp hr
  have hafter : ProbeReservation.stands o { reservation with finished := true } = false := by
    simp [ProbeReservation.stands]
  rw [List.countP_set hlt, hget, hafter]
  by_cases h : reservation.state = o
  · have hstands : reservation.stands o = true := by simp [ProbeReservation.stands, h, hopen]
    -- this one stood before, so that one can be taken off
    have hpos : 0 < reservations.countP (ProbeReservation.stands o) :=
      List.countP_pos_iff.mpr ⟨reservation, List.mem_of_getElem? hr, hstands⟩
    rw [if_pos hstands, if_pos h]
    simp only [Bool.false_eq_true, if_false]
    omega
  · have hstands : reservation.stands o = false := by simp [ProbeReservation.stands, h]
    simp [hstands, h]

/-- The books balance, with the shares of all hands. -/
structure Books (states : List ProbeState) (reservations : List ProbeReservation) (t : List Seen)
    (l : Share) : Prop where
  sound : ∀ (o : ℕ) state, states[o]? = some state →
    state.Sound (reservations.countP (ProbeReservation.stands o))
  known : ∀ reservation ∈ reservations, reservation.state < states.length
  placed : ∀ (r : ℕ) reservation, reservations[r]? = some reservation → reservation.finished = false →
    (reservation.state, r) ∈ l.1
  valid : ∀ o r : ℕ, (o, r) ∈ l.1 →
    ∃ reservation, reservations[r]? = some reservation ∧ reservation.state = o
  settled : ∀ o : ℕ, (states[o]?.map ProbeState.reached).getD 0 = l.2.count o + notices t o + losses t o

/-- One state changes, with its reservations and what is owed of it. -/
theorem Books.update (h : Books states reservations t l) {state state' : ProbeState} {k : ℕ}
    (ho : states[o]? = some state)
    (hsound : state'.Sound (reservations'.countP (ProbeReservation.stands o)))
    (hothers : ∀ o', o' ≠ o → reservations'.countP (ProbeReservation.stands o') =
      reservations.countP (ProbeReservation.stands o'))
    (hknown : ∀ reservation ∈ reservations', reservation.state < states.length)
    (hplaced : ∀ (r : ℕ) reservation, reservations'[r]? = some reservation → reservation.finished = false →
      (reservation.state, r) ∈ l'.1)
    (hvalid : ∀ o r : ℕ, (o, r) ∈ l'.1 →
      ∃ reservation, reservations'[r]? = some reservation ∧ reservation.state = o)
    (hreached : state'.reached = state.reached + k) (howed : l'.2 = l.2 + Multiset.replicate k o) :
    Books (states.set o state') reservations' t l' := by
  obtain ⟨hlt, -⟩ := List.getElem?_eq_some_iff.mp ho
  refine ⟨fun o' found hfound => ?_, fun reservation hmem => ?_, hplaced, hvalid, fun o' => ?_⟩
  · rw [List.getElem?_set] at hfound
    by_cases hne : o = o'
    · subst hne
      rw [if_pos rfl, if_pos hlt] at hfound
      cases hfound
      exact hsound
    · rw [if_neg hne] at hfound
      rw [hothers o' (Ne.symm hne)]
      exact h.sound o' found hfound
  · rw [List.length_set]
    exact hknown reservation hmem
  · have hsettled := h.settled o'
    rw [howed, Multiset.count_add, List.getElem?_set]
    by_cases hne : o = o'
    · subst hne
      rw [ho] at hsettled
      rw [if_pos rfl, if_pos hlt, Multiset.count_replicate_self]
      show state'.reached = _
      have hbefore : state.reached = l.2.count o + notices t o + losses t o := hsettled
      omega
    · rw [if_neg hne, Multiset.count_replicate, if_neg hne, hsettled]
      omega

/-- What is in hand of a finished reservation may be dropped. -/
theorem Books.drop (h : Books states reservations t (held o r + l))
    (hfinished : ∀ reservation, reservations[r]? = some reservation → reservation.finished = true) :
    Books states reservations t l := by
  refine ⟨h.sound, h.known, fun r' reservation hr' hopen => ?_, fun o' r' hmem => ?_, fun o' => ?_⟩
  · have hplaced := h.placed r' reservation hr' hopen
    rcases Multiset.mem_add.mp hplaced with hself | hmem
    · cases Multiset.mem_singleton.mp hself
      rw [hfinished reservation hr'] at hopen
      cases hopen
    · exact hmem
  · exact h.valid o' r' (Multiset.mem_add.mpr (.inr hmem))
  · have hsettled := h.settled o'
    rw [Prod.snd_add, held, zero_add] at hsettled
    exact hsettled

/-- A notice that is owed is given, or lost. -/
theorem Books.settle {seen : List Seen} (named : List ℕ) (h : Books states reservations t (owed named + l))
    (hseen : ∀ o, notices seen o + losses seen o = named.count o) :
    Books states reservations (t ++ seen) l := by
  refine ⟨h.sound, h.known, fun r reservation hr hopen => ?_, fun o r hmem => ?_, fun o => ?_⟩
  · have hplaced := h.placed r reservation hr hopen
    rw [Prod.fst_add, owed, zero_add] at hplaced
    exact hplaced
  · exact h.valid o r (Multiset.mem_add.mpr (.inr hmem))
  · have hsettled := h.settled o
    rw [Prod.snd_add, Multiset.count_add] at hsettled
    have howed : (owed named).2.count o = named.count o := Multiset.coe_count o named
    rw [howed] at hsettled
    have hboth := hseen o
    rw [hsettled, notices_append, losses_append]
    omega

end

section

variable {s : Agent} {t : List Seen} {l : Share} {o r : ℕ}

/-- Who reserves holds the reservation. -/
theorem Books.reserve (h : Books s.states s.reservations t l) (o : ℕ) :
    Books (s.reserve o).2.states (s.reserve o).2.reservations t
      (((s.reserve o).1.map (held o)).getD 0 + l) := by
  unfold Agent.reserve
  split
  · next hnone =>
    show Books _ _ _ (0 + l)
    rw [zero_add]
    exact h
  · next state' hsome =>
    obtain ⟨state, ho, hreserve⟩ := Option.bind_eq_some_iff.mp hsome
    obtain ⟨hlt, -⟩ := List.getElem?_eq_some_iff.mp ho
    obtain ⟨hsound, hreached⟩ := (h.sound o state ho).reserve hreserve
    refine h.update (k := 0) ho ?_ (fun o' hne => ?_) ?_ (fun r reservation hr hopen => ?_) (fun o' r hmem => ?_)
      hreached ?_
    · -- the accounts of the state
      rw [countP_reserved, if_pos rfl]
      exact hsound
    · -- other states
      rw [countP_reserved, if_neg (Ne.symm hne), Nat.add_zero]
    · intro reservation hmem
      rcases List.mem_append.mp hmem with hmem | hmem
      · exact h.known reservation hmem
      · rw [List.mem_singleton.mp hmem]
        exact hlt
    · show _ ∈ ({(o, s.reservations.length)} : Multiset (ℕ × ℕ)) + l.1
      rw [List.getElem?_append] at hr
      split at hr
      · exact Multiset.mem_add.mpr (.inr (h.placed r reservation hr hopen))
      · next hle =>
        -- the new reservation is the last of the list
        have hr0 : r - s.reservations.length = 0 := by
          by_contra hne
          rw [List.getElem?_singleton, if_neg hne] at hr
          cases hr
        rw [hr0] at hr
        cases hr
        have hlen : r = s.reservations.length := by omega
        rw [hlen]
        exact Multiset.mem_add.mpr (.inl (Multiset.mem_singleton_self _))
    · rcases Multiset.mem_add.mp hmem with hself | hmem
      · -- the one in hand is the new one
        cases Multiset.mem_singleton.mp hself
        exact ⟨_, List.getElem?_concat_length, rfl⟩
      · obtain ⟨reservation, hr, hstate⟩ := h.valid o' r hmem
        refine ⟨reservation, ?_, hstate⟩
        rw [List.getElem?_append_left (List.getElem?_eq_some_iff.mp hr).1]
        exact hr
    · show 0 + l.2 = l.2 + 0
      rw [zero_add, add_zero]

/-- Who reaches the limit owes the notice. -/
theorem Books.count (h : Books s.states s.reservations t l) (o : ℕ) :
    Books (s.count o).2.states (s.count o).2.reservations t
      (owed (if (s.count o).1.2 then [o] else []) + l) := by
  unfold Agent.count
  split
  · show Books _ _ _ (0 + l)
    rw [zero_add]
    exact h
  · next state ho =>
    obtain ⟨hsound, hreached⟩ := (h.sound o state ho).count
    refine h.update ho hsound (fun _ _ => rfl) h.known ?_ ?_ hreached ?_
    · intro r reservation hr hopen
      exact Multiset.mem_add.mpr (.inr (h.placed r reservation hr hopen))
    · intro o' r hmem
      rw [Prod.fst_add, owed, zero_add] at hmem
      exact h.valid o' r hmem
    · dsimp only
      split
      · -- the limit is reached: one notice is owed
        show ([o] : Multiset ℕ) + l.2 = l.2 + Multiset.replicate 1 o
        rw [add_comm]
        rfl
      · show 0 + l.2 = l.2 + 0
        rw [zero_add, add_zero]

/-- Whatever stands of the reservation is finished. -/
theorem Books.finish (h : Books s.states s.reservations t l) (r : ℕ) (emits : Bool) {o : ℕ}
    (ho : ∀ reservation, s.reservations[r]? = some reservation → reservation.state = o) :
    Books (s.finish r emits).2.states (s.finish r emits).2.reservations t
        (owed (if (s.finish r emits).1.2 then [o] else []) + l) ∧
      ∀ reservation, (s.finish r emits).2.reservations[r]? = some reservation → reservation.finished = true := by
  have hsame : Books s.states s.reservations t (owed [] + l) := by
    show Books _ _ _ (0 + l)
    rw [zero_add]
    exact h
  unfold Agent.finish
  split
  · next hnone =>
    exact ⟨hsame, fun reservation hr => by rw [hnone] at hr; cases hr⟩
  · next reservation hr =>
    obtain rfl := ho reservation hr
    obtain ⟨hlt, hget⟩ := List.getElem?_eq_some_iff.mp hr
    split
    · next hdone =>
      refine ⟨hsame, fun found hfound => ?_⟩
      rw [hr] at hfound
      cases hfound
      exact hdone
    · next hopen =>
      rw [Bool.not_eq_true] at hopen
      have hstate := h.known reservation (List.mem_of_getElem? hr)
      rw [List.getElem?_eq_getElem hstate]
      dsimp only
      have hcount := countP_finished hr hopen reservation.state
      rw [if_pos rfl] at hcount
      have hsound := h.sound reservation.state _ (List.getElem?_eq_getElem hstate)
      rw [hcount] at hsound
      obtain ⟨hsound, hreached⟩ := hsound.finish emits
      refine ⟨h.update (List.getElem?_eq_getElem hstate) hsound (fun o' hne => ?_) ?_ ?_ ?_ hreached ?_, ?_⟩
      · have hother := countP_finished hr hopen o'
        rw [if_neg (Ne.symm hne)] at hother
        exact hother.symm
      · intro found hfound
        rcases List.mem_or_eq_of_mem_set hfound with hmem | rfl
        · exact h.known found hmem
        · exact hstate
      · intro r' found hfound hstill
        rw [List.getElem?_set] at hfound
        split at hfound
        · cases hfound
          cases hstill
        · exact Multiset.mem_add.mpr (.inr (h.placed r' found hfound hstill))
      · intro o' r' hmem
        rw [Prod.fst_add, owed, zero_add] at hmem
        obtain ⟨found, hfound, hto⟩ := h.valid o' r' hmem
        by_cases heq : r = r'
        · subst heq
          rw [hr] at hfound
          cases hfound
          exact ⟨_, List.getElem?_set_self hlt, hto⟩
        · exact ⟨found, by rw [List.getElem?_set_ne heq]; exact hfound, hto⟩
      · split
        · show ([reservation.state] : Multiset ℕ) + l.2 = l.2 + Multiset.replicate 1 reservation.state
          rw [add_comm]
          rfl
        · show 0 + l.2 = l.2 + 0
          rw [zero_add, add_zero]
      · intro found hfound
        rw [List.getElem?_set_self hlt] at hfound
        cases hfound
        rfl

/-- A state that is changed, but not in its accounts. -/
theorem Books.setState (h : Books s.states s.reservations t l) (o : ℕ) {f : ProbeState → ProbeState}
    (hprobe : ∀ state, (f state).probe = state.probe) (hemitted : ∀ state, (f state).emitted = state.emitted)
    (hinFlight : ∀ state, (f state).inFlight = state.inFlight)
    (hactive : ∀ state, (f state).active = true → state.active = true) :
    Books (s.setState o f).states s.reservations t l := by
  show Books (s.states.modify o f) _ _ _
  rcases ho : s.states[o]? with - | state
  · rw [List.modify_eq_self (List.getElem?_eq_none_iff.mp ho)]
    exact h
  · obtain ⟨hlt, hget⟩ := List.getElem?_eq_some_iff.mp ho
    have hset : s.states.modify o f = s.states.set o (f state) := by
      rw [List.modify_eq_set_get f hlt, List.get_eq_getElem, hget]
    rw [hset]
    refine h.update (k := 0) ho ((h.sound o state ho).of_account (hprobe state) (hemitted state)
      (hinFlight state) (hactive state)) (fun _ _ => rfl) h.known h.placed h.valid ?_ (add_zero _).symm
    rw [ProbeState.reached, hprobe, hemitted]
    rfl

theorem Books.newState (h : Books s.states s.reservations t l) (probe : PlacedProbe) :
    Books (s.states ++ [({ probe } : ProbeState)]) s.reservations t l := by
  have hnone : s.reservations.countP (ProbeReservation.stands s.states.length) = 0 := by
    rw [List.countP_eq_zero]
    intro reservation hmem hstands
    have hlt := h.known reservation hmem
    simp only [ProbeReservation.stands, Bool.and_eq_true, decide_eq_true_eq] at hstands
    omega
  refine ⟨fun o state ho => ?_, fun reservation hmem => ?_, h.placed, h.valid, fun o => ?_⟩
  · rw [List.getElem?_append] at ho
    split at ho
    · exact h.sound o state ho
    · next hle =>
      rw [List.getElem?_singleton] at ho
      split at ho
      · next hzero =>
        cases ho
        have hlen : o = s.states.length := by omega
        rw [hlen, hnone]
        exact ProbeState.Sound.new probe
      · cases ho
  · rw [List.length_append]
    exact Nat.lt_add_right _ (h.known reservation hmem)
  · rw [← h.settled o, List.getElem?_append]
    split
    · rfl
    · next hle =>
      rw [List.getElem?_eq_none (not_lt.mp hle), List.getElem?_singleton]
      split
      · exact ProbeState.reached_new probe
      · rfl

end

/-! ### Programs and what they hand on -/

/-- The books balance for what the programs and the queue have in hand. -/
def Ledger (s : Agent) (t : List Seen) (l : Share) : Prop :=
  Books s.states s.reservations t (l + s.queued)

/-- With `x` in hand, the program keeps the books and stops with `y` in hand. -/
def Hands {α : Type} (p : Code α) (x : Share) (y : α → Share) : Prop := p.Keeps Ledger (fun a l => l = y a) x

/-- The program needs nothing, and leaves nothing. -/
abbrev Calm {α : Type} (p : Code α) : Prop := Hands p 0 fun _ => 0

section

variable {α β : Type} {p : Code α} {k : α → Code β} {x x' : Share} {y : α → Share} {z : β → Share}
  {answer : Agent → α} {next : Agent → Agent} {seen : Agent → List Seen}

theorem hands_pure {a : α} (h : x = y a) : Hands (pure a) x y := h

/-- What the first hands on is what the second takes. -/
theorem Hands.bind (h : Hands p x y) (hk : ∀ a, Hands (k a) (y a) z) : Hands (p >>= k) x z := by
  refine Program.Keeps.then h fun a l hl => ?_
  rw [hl]
  exact hk a

/-- A program leaves alone what it was not given. -/
theorem Hands.frame (h : Hands p x y) (f : Share) : Hands p (x + f) fun a => y a + f := by
  refine Program.Keeps.mono (Program.Keeps.frame h f) fun a l hl => ?_
  obtain ⟨l', rfl, hl'⟩ := hl
  rw [hl']

theorem Calm.bind (h : Calm p) (hk : ∀ a, Hands (k a) x z) : Hands (p >>= k) x z := by
  have hframed := h.frame x
  rw [zero_add] at hframed
  exact Hands.bind hframed hk

/-- A step that keeps the queue is judged by the books alone. -/
theorem hands_books (hqueue : ∀ s, (next s).rawQueue = s.rawQueue)
    (h : ∀ s t l, Books s.states s.reservations t (x + l) →
      Books (next s).states (next s).reservations (t ++ seen s) (y (answer s) + l)) :
    Hands (.act answer next seen) x y := by
  refine Program.keeps_act fun s t l hledger => ⟨_, ?_, rfl⟩
  rw [Ledger, Agent.queued, hqueue, add_assoc]
  refine h s t _ ?_
  rw [← add_assoc]
  exact hledger

/-- A step that keeps off the books may be seen, unless a notice is. -/
theorem calm_act (hqueue : ∀ s, (next s).rawQueue = s.rawQueue) (hstates : ∀ s, (next s).states = s.states)
    (hreservations : ∀ s, (next s).reservations = s.reservations)
    (hseen : ∀ s, ∀ e ∈ seen s, e.noticed = [] ∧ e.lost = []) : Calm (.act answer next seen) := by
  refine hands_books hqueue fun s t l hbooks => ?_
  show Books _ _ _ (0 + l)
  rw [hstates, hreservations, zero_add]
  refine Books.settle [] hbooks fun o => ?_
  have hnoticed : (seen s).flatMap Seen.noticed = [] :=
    List.flatMap_eq_nil_iff.mpr fun e he => (hseen s e he).1
  have hlost : (seen s).flatMap Seen.lost = [] := List.flatMap_eq_nil_iff.mpr fun e he => (hseen s e he).2
  rw [notices, losses, hnoticed, hlost]
  rfl

/-- A step that shows nothing and changes no book. -/
theorem calm_silent (hqueue : ∀ s, (next s).rawQueue = s.rawQueue) (hstates : ∀ s, (next s).states = s.states)
    (hreservations : ∀ s, (next s).reservations = s.reservations) :
    Calm (.act answer next fun _ => []) :=
  calm_act hqueue hstates hreservations fun _ _ he => absurd he List.not_mem_nil

theorem calm_read : Calm (.read answer) :=
  calm_silent (fun _ => rfl) (fun _ => rfl) fun _ => rfl

theorem calm_ite {c : Prop} [Decidable c] {p q : Code α} (hp : Hands p x y) (hq : Hands q x y) :
    Hands (if c then p else q) x y := by
  split
  · exact hp
  · exact hq

end

/-! ### Reservations in hand -/

theorem activeOf_calm (states : List ℕ) : Calm (activeOf states) := by
  induction states with
  | nil => exact hands_pure rfl
  | cons o rest ih => exact calm_read.bind fun _ => ih.bind fun _ => hands_pure rfl

/-- A change of a state that the books do not read. -/
theorem setState_calm {α : Type} {answer : Agent → α} (o : ℕ) {f : ProbeState → ProbeState}
    (hprobe : ∀ state, (f state).probe = state.probe) (hemitted : ∀ state, (f state).emitted = state.emitted)
    (hinFlight : ∀ state, (f state).inFlight = state.inFlight)
    (hactive : ∀ state, (f state).active = true → state.active = true) :
    Calm (.act answer (fun s => s.setState o f) fun _ => []) := by
  refine hands_books (fun _ => rfl) fun s t l hbooks => ?_
  rw [List.append_nil]
  exact hbooks.setState o hprobe hemitted hinFlight hactive

theorem deactivate_calm (o : ℕ) : Calm (deactivate o) :=
  setState_calm o (fun _ => rfl) (fun _ => rfl) (fun _ => rfl) fun _ h => by cases h

theorem Agent.reserve_rawQueue (s : Agent) (o : ℕ) : (s.reserve o).2.rawQueue = s.rawQueue := by
  unfold Agent.reserve
  split <;> rfl

theorem Agent.count_rawQueue (s : Agent) (o : ℕ) : (s.count o).2.rawQueue = s.rawQueue := by
  unfold Agent.count
  split <;> rfl

theorem Agent.finish_rawQueue (s : Agent) (r : ℕ) (emits : Bool) : (s.finish r emits).2.rawQueue = s.rawQueue := by
  unfold Agent.finish
  split
  · rfl
  · split
    · rfl
    · split <;> rfl

theorem Agent.count_reached {s : Agent} {o : ℕ} (h : (s.count o).1.2 = true) : (s.count o).1.1 = true := by
  unfold Agent.count at h ⊢
  split at h
  · cases h
  · exact ProbeState.count_reached h

theorem Agent.finish_reached {s : Agent} {r : ℕ} {emits : Bool} (h : (s.finish r emits).1.2 = true) :
    (s.finish r emits).1.1 = true := by
  unfold Agent.finish at h ⊢
  split at h
  · cases h
  · split at h
    · cases h
    · next hopen =>
      rw [if_neg hopen]
      split at h
      · cases h
      · exact ProbeState.finish_reached h

/-- Nothing is emitted of a reservation that is released. -/
theorem Agent.finish_released (s : Agent) (r : ℕ) : (s.finish r false).1 = (false, false) := by
  unfold Agent.finish
  split
  · rfl
  · split
    · rfl
    · split <;> rfl

theorem reserve_hands (o : ℕ) : Hands (reserve o) 0 fun r => (r.map (held o)).getD 0 := by
  refine hands_books (fun s => s.reserve_rawQueue o) fun s t l hbooks => ?_
  rw [zero_add] at hbooks
  rw [List.append_nil]
  exact hbooks.reserve o

/-- What is owed on an answer `(emitted, reached_limit)`. -/
def notice (o : ℕ) (answer : Bool × Bool) : Share := owed (if answer.1 && answer.2 then [o] else [])

theorem notice_eq (o : ℕ) {answer : Bool × Bool} (h : answer.2 = true → answer.1 = true) :
    notice o answer = owed (if answer.2 then [o] else []) := by
  obtain ⟨emitted, - | -⟩ := answer
  · rw [notice, Bool.and_false]
  · rw [notice, h rfl]
    rfl

/-- The caller takes the debt of a notice. -/
theorem count_hands (o : ℕ) : Hands (count o) 0 (notice o) := by
  refine hands_books (fun s => s.count_rawQueue o) fun s t l hbooks => ?_
  rw [zero_add] at hbooks
  rw [List.append_nil, notice_eq o Agent.count_reached]
  exact hbooks.count o

/-- A reservation in hand is finished, and let go. -/
theorem Books.finish_held {s : Agent} {t : List Seen} {l : Share} {o r : ℕ}
    (h : Books s.states s.reservations t (held o r + l)) (emits : Bool) :
    Books (s.finish r emits).2.states (s.finish r emits).2.reservations t
      (owed (if (s.finish r emits).1.2 then [o] else []) + l) := by
  obtain ⟨reservation, hr, hstate⟩ :=
    h.valid o r (Multiset.mem_add.mpr (.inl (Multiset.mem_singleton_self (o, r))))
  obtain ⟨hbooks, hfinished⟩ := h.finish r emits (o := o) fun found hfound => by
    rw [hr] at hfound
    cases hfound
    exact hstate
  rw [add_left_comm] at hbooks
  exact hbooks.drop hfinished

/-- The reservation goes, and a debt may come. -/
theorem commit_hands (o r : ℕ) : Hands (commit r) (held o r) (notice o) := by
  refine hands_books (fun s => s.finish_rawQueue r true) fun s t l hbooks => ?_
  rw [List.append_nil, notice_eq o Agent.finish_reached]
  exact hbooks.finish_held true

/-- A candidate that is dropped gives its reservation back. -/
theorem release_hands (candidate : ProbeCandidate) : Hands (release candidate) candidate.share fun _ => 0 := by
  obtain ⟨o, - | r⟩ := candidate
  · exact hands_pure rfl
  · refine hands_books (fun s => s.finish_rawQueue r false) fun s t l hbooks => ?_
    have hafter := Books.finish_held (o := o) hbooks false
    rw [s.finish_released] at hafter
    rw [List.append_nil]
    exact hafter

/-- A reservation that is not in hand, or not any more, may be released as well. -/
theorem release_calm (candidate : ProbeCandidate) : Calm (release candidate) := by
  obtain ⟨o, - | r⟩ := candidate
  · exact hands_pure rfl
  · refine hands_books (fun s => s.finish_rawQueue r false) fun s t l hbooks => ?_
    have hafter := (hbooks.finish r false (o := (s.reservations[r]?.map ProbeReservation.state).getD 0)
      fun reservation hr => by rw [hr]; rfl).1
    rw [s.finish_released] at hafter
    rw [List.append_nil]
    rw [zero_add] at hafter
    exact hafter

theorem shares_cons (candidate : ProbeCandidate) (rest : List ProbeCandidate) :
    shares (candidate :: rest) = candidate.share + shares rest := rfl

/-- Some of the candidates' reservations are still in hand. -/
theorem releaseAll_hands {captures still : List ProbeCandidate} (h : still.Sublist captures) :
    Hands (releaseAll captures) (shares still) fun _ => 0 := by
  induction h with
  | slnil => exact hands_pure rfl
  | cons candidate _ ih => exact (release_calm candidate).bind fun _ => ih
  | cons_cons candidate _ ih =>
    rw [shares_cons]
    refine ((release_hands candidate).frame _).bind fun _ => ?_
    rw [zero_add]
    exact ih

/-! ### The queue and the events -/

theorem addDropped_calm (n : ℕ) : Calm (addDropped n) :=
  calm_read.bind fun _ => calm_silent (fun _ => rfl) (fun _ => rfl) fun _ => rfl

/-- What is put into the queue goes out of hand. -/
theorem Ledger.put {s : Agent} {t : List Seen} {l : Share} (item : Item) (h : Ledger s t (item.share + l)) :
    Ledger (s.put item) t l := by
  have hqueued : (s.put item).queued = s.queued + item.share := by
    rw [Agent.queued, Agent.put, List.map_append, List.sum_append, List.map_singleton, List.sum_singleton]
    rfl
  show Books _ _ _ _
  rw [hqueued, ← add_assoc, add_right_comm, add_comm l]
  exact h

/-- The queue takes the reservations, or the caller keeps them. -/
theorem putHit_hands (candidates : List ProbeCandidate) (hit : RawHit) :
    Hands (putHit candidates hit) (shares candidates) fun queued => if queued then 0 else shares candidates := by
  refine Program.keeps_act fun s t l hledger => ⟨_, ?_, rfl⟩
  show Ledger _ _ ((if s.hasRoom then 0 else shares candidates) + l)
  rw [List.append_nil]
  by_cases hroom : s.hasRoom = true
  · rw [if_pos hroom, if_pos hroom, zero_add]
    -- the queue holds what the callback held
    exact hledger.put (.hit candidates hit)
  · rw [if_neg hroom, if_neg hroom]
    exact hledger

/-- The queue takes the debts; when it is full they are lost. -/
theorem putLifecycle_hands (lifecycle : Lifecycle) :
    Hands (putLifecycle lifecycle) (owed lifecycle.notices) fun _ => 0 := by
  refine Program.keeps_act fun s t l hledger => ⟨0, ?_, rfl⟩
  rw [zero_add]
  by_cases hroom : s.hasRoom = true
  · rw [if_pos hroom, if_pos hroom, List.append_nil]
    exact hledger.put (.lifecycle lifecycle)
  · rw [if_neg hroom, if_neg hroom]
    show Books _ _ _ _
    rw [Ledger, add_assoc] at hledger
    -- on a full queue the notices are lost
    refine hledger.settle lifecycle.notices fun o => ?_
    show 0 + (lifecycle.notices ++ []).count o = _
    rw [List.append_nil, zero_add]

theorem enqueueLifecycle_hands (action : LifecycleAction) (states : List ℕ) (detail : PyString) :
    Hands (enqueueLifecycle action states detail) (owed (if action = .hitLimit then states else [])) fun _ => 0 :=
  (putLifecycle_hands { action, states, detail }).bind fun _ => calm_ite (hands_pure rfl) (addDropped_calm _)

/-- The worker takes what stood in the queue with the item. -/
theorem getNowait_hands : Hands getNowait 0 fun item => (item.map Item.share).getD 0 := by
  refine Program.keeps_act fun s t l hledger => ⟨_, ?_, rfl⟩
  rw [List.append_nil]
  rw [Ledger, zero_add] at hledger
  show Books _ _ _ _
  have hqueued : s.queued = (s.rawQueue.head?.map Item.share).getD 0 +
      Agent.queued { s with rawQueue := s.rawQueue.tail } := by
    unfold Agent.queued
    rcases s.rawQueue with - | ⟨item, rest⟩
    · rfl
    · rfl
  rw [hqueued] at hledger
  rw [add_assoc, add_left_comm]
  exact hledger

theorem pushEvent_hands (o : ℕ) (event : PyEvent) :
    Hands (pushEvent o event) (owed (Seen.noticed (.appended o event))) fun _ => 0 := by
  refine hands_books (fun _ => rfl) fun s t l hbooks => ?_
  rw [zero_add]
  refine hbooks.settle _ fun o' => ?_
  show ((Seen.noticed (.appended o event)) ++ []).count o' + 0 = _
  rw [List.append_nil, add_zero]

/-- An event of the limit settles the debt. -/
theorem appendEvent_hands (o : ℕ) (event : PyEvent) :
    Hands (appendEvent o event) (owed (Seen.noticed (.appended o event))) fun _ => 0 :=
  calm_read.bind fun _ => calm_ite
    (Calm.bind (calm_silent (fun _ => rfl) (fun _ => rfl) fun _ => rfl) fun _ =>
      (addDropped_calm 1).bind fun _ => pushEvent_hands o event)
    (pushEvent_hands o event)

theorem status_hands (o : ℕ) (name : ProbeStatusName) (detail : PyString) :
    Hands (status o name detail) (owed (if name = .hitLimitReached then [o] else [])) fun _ => 0 := by
  refine calm_read.bind fun probe => ?_
  have happend := appendEvent_hands o (.status ((probe.map (·.probeId)).getD []) name detail)
  cases name <;> exact happend

/-- A loss is seen, and counts as settled. -/
theorem unnoticed_hands (states : List ℕ) : Hands (unnoticed states) (owed states) fun _ => 0 := by
  refine hands_books (fun _ => rfl) fun s t l hbooks => ?_
  rw [zero_add]
  refine hbooks.settle states fun o => ?_
  have hnoticed : (states.map Seen.unnoticed).flatMap Seen.noticed = [] := by
    rw [List.flatMap_map, List.flatMap_eq_nil_iff]
    exact fun _ _ => rfl
  have hlost : (states.map Seen.unnoticed).flatMap Seen.lost = states := by
    rw [List.flatMap_map]
    exact List.flatMap_singleton' states
  rw [notices, losses, hnoticed, hlost]
  exact Nat.zero_add _

theorem refreshActiveIndex_calm : Calm refreshActiveIndex :=
  calm_read.bind fun _ => (activeOf_calm _).bind fun _ =>
    Calm.bind (calm_silent (fun _ => rfl) (fun _ => rfl) fun _ => rfl) fun _ =>
      calm_read.bind fun _ => calm_ite calm_read (hands_pure rfl)

/-- The notice that is owed is given here, unless the index cannot be refreshed. -/
theorem hitLimitReached_hands (o : ℕ) : Hands (hitLimitReached o) (owed [o]) fun _ => 0 := by
  refine refreshActiveIndex_calm.bind fun _ => calm_ite ?_ ?_
  · exact calm_read.bind fun _ => (status_hands o .hitLimitReached _).bind fun _ => calm_read
  · exact (unnoticed_hands [o]).bind fun _ => hands_pure rfl

/-! ### The callback -/

theorem countWithoutCapture_calm (o : ℕ) (probe : PlacedProbe) : Calm (countWithoutCapture o probe) := by
  refine (count_hands o).bind fun answer => ?_
  rcases answer with ⟨- | -, reached⟩
  · exact hands_pure rfl
  · refine Calm.bind (calm_silent (fun _ => rfl) (fun _ => rfl) fun _ => rfl) fun _ => ?_
    cases reached with
    | false => exact hands_pure rfl
    | true => exact enqueueLifecycle_hands .hitLimit [o] _

theorem skipOverBudget_calm (dropped : Bool) (states : List ℕ) : Calm (skipOverBudget dropped states) := by
  induction states generalizing dropped with
  | nil => exact calm_ite (addDropped_calm 1) (hands_pure rfl)
  | cons o rest ih =>
    refine calm_read.bind fun probe => ?_
    rcases probe with - | probe
    · exact ih dropped
    · exact calm_ite ((countWithoutCapture_calm o probe).bind fun _ => ih dropped) (ih true)

/-- A candidate holds its reservation. -/
theorem candidateOf_hands (o : ℕ) : Hands (candidateOf o) 0 fun candidate => shares candidate.toList := by
  refine calm_read.bind fun probe => ?_
  rcases probe with - | probe
  · exact hands_pure rfl
  · refine calm_ite (hands_pure rfl) ((reserve_hands o).bind fun r => ?_)
    rcases r with - | r
    · exact hands_pure rfl
    · exact hands_pure (add_zero _).symm

theorem shares_append (candidates others : List ProbeCandidate) :
    shares (candidates ++ others) = shares candidates + shares others := by
  rw [shares, List.map_append, List.sum_append]
  rfl

theorem candidatesOf_hands (states : List ℕ) : Hands (candidatesOf states) 0 shares := by
  induction states with
  | nil => exact hands_pure rfl
  | cons o rest ih =>
    refine (candidateOf_hands o).bind fun candidate => ?_
    have hrest := ih.frame (shares candidate.toList)
    rw [zero_add] at hrest
    refine hrest.bind fun others => hands_pure ?_
    rw [shares_append, add_comm]

/-- All reservations are handed to the queue, or released. -/
theorem captureHit_hands (captures : List ProbeCandidate) (capture : Capture) :
    Hands (captureHit captures capture) (shares captures) fun _ => 0 := by
  have hrelease := releaseAll_hands (List.Sublist.refl captures)
  cases capture with
  | missing => exact hrelease.bind fun _ => enqueueLifecycle_hands .error _ _
  | raised => exact hrelease.bind fun _ => enqueueLifecycle_hands .error _ _
  | captured hit =>
    refine (putHit_hands captures hit).bind fun queued => ?_
    cases queued with
    | true => exact hands_pure rfl
    | false => exact hrelease.bind fun _ => addDropped_calm _

/-- All that the callback reserves is queued or released. -/
theorem lineHit_calm (e : LineEvent) : Calm (lineHit e) := by
  refine calm_read.bind fun _ => calm_read.bind fun _ => calm_ite (hands_pure rfl) ?_
  refine calm_read.bind fun _ => calm_read.bind fun _ => (activeOf_calm _).bind fun active => ?_
  refine calm_ite (hands_pure rfl) (calm_ite (skipOverBudget_calm _ _) ?_)
  refine (candidatesOf_hands active).bind fun captures => ?_
  rcases captures with - | ⟨candidate, rest⟩
  · exact hands_pure rfl
  · exact captureHit_hands (candidate :: rest) e.capture

theorem announceActive_calm (action : LifecycleAction) (haction : action ≠ .hitLimit) (detail : PyString) :
    Calm (do
      let states ← .read fun s => s.table.values
      let active ← activeOf states
      enqueueLifecycle action active detail) := by
  refine calm_read.bind fun _ => (activeOf_calm _).bind fun active => ?_
  have henqueue := enqueueLifecycle_hands action active detail
  rw [if_neg haction] at henqueue
  exact henqueue

theorem enterRed_calm (detail : PyString) : Calm (enterRed detail) := by
  refine Calm.bind (calm_silent (fun s => ?_) (fun s => ?_) fun s => ?_) fun _ =>
    calm_ite (announceActive_calm .suspended (fun h => by cases h) detail) (hands_pure rfl)
  all_goals split <;> rfl

theorem onLine_calm (e : LineEvent) : Calm (onLine e) :=
  (lineHit_calm e).bind fun _ => calm_ite (enterRed_calm _) (hands_pure rfl)

/-! ### The worker -/

theorem record_calm (pipeline : Pipeline) (o : ℕ) (probe : PlacedProbe) (event : Produced) :
    Calm (record pipeline o probe event) := by
  cases event with
  | nothing => exact hands_pure rfl
  | error detail => exact hands_pure rfl
  | counter => exact calm_silent (fun _ => rfl) (fun _ => rfl) fun _ => rfl
  | sample n => exact calm_silent (fun _ => rfl) (fun _ => rfl) fun _ => rfl
  | snapshot captured watches stack => exact (appendEvent_hands o _).bind fun _ => hands_pure rfl
  | log message level => exact (appendEvent_hands o _).bind fun _ => calm_read

theorem probeErrorOnce_calm (o : ℕ) (detail : PyString) : Calm (probeErrorOnce o detail) :=
  Calm.bind (setState_calm o (fun _ => rfl) (fun _ => rfl) (fun _ => rfl) fun _ => id) fun _ =>
    calm_ite (hands_pure rfl) (status_hands o .error detail)

theorem reserved_hands (candidate : ProbeCandidate) :
    Hands (reserved candidate) candidate.share ProbeCandidate.share := by
  obtain ⟨o, - | r⟩ := candidate
  · refine (reserve_hands o).bind fun r => ?_
    rcases r with - | r
    · exact hands_pure rfl
    · exact hands_pure rfl
  · exact hands_pure rfl

/-- The notice follows the event that reached the limit. -/
theorem commitHit_hands (pipeline : Pipeline) (o r : ℕ) (probe : PlacedProbe) (event : Produced) :
    Hands (commitHit pipeline o r probe event) (held o r) fun _ => 0 := by
  refine (commit_hands o r).bind fun answer => ?_
  rcases answer with ⟨- | -, reached⟩
  · exact hands_pure rfl
  · refine (record_calm pipeline o probe event).bind fun recorded => ?_
    have hnotice : notice o (true, reached) = owed (if reached = true then [o] else []) := rfl
    rw [hnotice]
    cases recorded with
    | false => exact (unnoticed_hands _).bind fun _ => hands_pure rfl
    | true =>
      cases reached with
      | false => exact hands_pure rfl
      | true => exact hitLimitReached_hands o

/-- What is in hand after the turn of a candidate: its reservation at most, on an exception. -/
def AfterCandidate (processed : ProbeCandidate × Bool) (l : Share) : Prop :=
  l = 0 ∨ processed.2 = false ∧ l = processed.1.share

theorem processReserved_keeps (pipeline : Pipeline) (hit : RawHit) (probe : PlacedProbe)
    (candidate : ProbeCandidate) :
    (processReserved pipeline hit probe candidate).Keeps Ledger AfterCandidate candidate.share := by
  refine Program.Keeps.then (reserved_hands candidate) fun found l hl => ?_
  obtain ⟨o, - | r⟩ := found
  · exact .inl hl
  · subst hl
    dsimp only
    split
    · exact .inr ⟨rfl, rfl⟩
    · exact Program.Keeps.then (release_hands ⟨o, some r⟩) fun _ l hl => by
        subst hl
        exact Program.Keeps.then (probeErrorOnce_calm o _) fun _ l hl => .inl hl
    · exact Program.Keeps.then (commitHit_hands pipeline o r probe _) fun _ l hl => .inl hl

theorem processCandidate_keeps (pipeline : Pipeline) (hit : RawHit) (candidate : ProbeCandidate) :
    (processCandidate pipeline hit candidate).Keeps Ledger AfterCandidate candidate.share := by
  have hrelease : (do
      release candidate
      pure (candidate, true) : Code (ProbeCandidate × Bool)).Keeps Ledger AfterCandidate candidate.share :=
    Program.Keeps.then (release_hands candidate) fun _ l hl => .inl hl
  have hread {α : Type} (answer : Agent → α) :
      (Program.read answer : Code α).Keeps Ledger (fun _ l => l = candidate.share) candidate.share :=
    Program.keeps_read fun _ _ _ _ => rfl
  refine Program.Keeps.then (hread _) fun active l hl => ?_
  subst hl
  refine Program.Keeps.then (hread _) fun probe l hl => ?_
  subst hl
  rcases active with - | -
  · exact hrelease
  · rcases probe with - | probe
    · exact hrelease
    · dsimp only
      split
      · exact .inr ⟨rfl, rfl⟩
      · exact hrelease
      · exact processReserved_keeps pipeline hit probe candidate

/-- What is in hand after the loop over the candidates: nothing, or after an
exception the reservations of some of them. -/
def AfterCandidates (processed : List ProbeCandidate × Bool) (l : Share) : Prop :=
  ∃ still : List ProbeCandidate, still.Sublist processed.1 ∧ (processed.2 = true → still = []) ∧ l = shares still

/-- One after another: a failure leaves those behind it to the handler. -/
theorem processCandidates_keeps (pipeline : Pipeline) (hit : RawHit) (candidates : List ProbeCandidate) :
    (processCandidates pipeline hit candidates).Keeps Ledger AfterCandidates (shares candidates) := by
  induction candidates with
  | nil => exact ⟨[], List.Sublist.refl _, fun _ => rfl, rfl⟩
  | cons candidate rest ih =>
    rw [shares_cons]
    refine Program.Keeps.then ((processCandidate_keeps pipeline hit candidate).frame (shares rest))
      fun processed l hl => ?_
    obtain ⟨l', rfl, hafter⟩ := hl
    obtain ⟨found, done⟩ := processed
    cases done with
    | true =>
      -- a candidate that was done with left nothing in hand
      have hnone : l' = 0 := by
        rcases hafter with h | ⟨h, -⟩
        · exact h
        · cases h
      rw [hnone, zero_add]
      refine Program.Keeps.then ih fun others l hl => ?_
      obtain ⟨still, hsub, hdone, hl⟩ := hl
      exact ⟨still, hsub.cons _, hdone, hl⟩
    | false =>
      -- the loop stops here: the rest is still in hand
      rcases hafter with rfl | ⟨-, rfl⟩
      · rw [zero_add]
        exact ⟨rest, List.sublist_cons_self _ _, (by intro h; cases h), rfl⟩
      · exact ⟨found :: rest, List.Sublist.refl _, (by intro h; cases h), rfl⟩

theorem processLifecycleState_hands (lifecycle : Lifecycle) (o : ℕ) :
    Hands (processLifecycleState lifecycle o) (owed (if lifecycle.action = .hitLimit then [o] else []))
      fun _ => 0 := by
  obtain ⟨action, states, detail⟩ := lifecycle
  refine calm_read.bind fun probe => ?_
  cases action with
  | armed => exact (status_hands o .armed _).bind fun _ => calm_read
  | expired => exact (status_hands o .expired _).bind fun _ => calm_read
  | suspended => exact (status_hands o .suspended _).bind fun _ => hands_pure rfl
  | rearmed => exact (status_hands o .armed _).bind fun _ => hands_pure rfl
  | hitLimit => exact hitLimitReached_hands o
  | error => exact (status_hands o .error _).bind fun _ => hands_pure rfl

theorem processLifecycleStates_hands (lifecycle : Lifecycle) (states : List ℕ) :
    Hands (processLifecycleStates lifecycle states)
      (owed (if lifecycle.action = .hitLimit then states else [])) fun _ => 0 := by
  induction states with
  | nil => exact hands_pure (by split <;> rfl)
  | cons o rest ih =>
    have hsplit : owed (if lifecycle.action = .hitLimit then o :: rest else []) =
        owed (if lifecycle.action = .hitLimit then [o] else []) +
          owed (if lifecycle.action = .hitLimit then rest else []) := by
      split
      · exact owed_cons o rest
      · rfl
    rw [hsplit]
    refine ((processLifecycleState_hands lifecycle o).frame _).bind fun done => ?_
    rw [zero_add]
    exact calm_ite ih ((unnoticed_hands _).bind fun _ => hands_pure rfl)

/-- A notice of the limit goes to each state it was queued for. -/
theorem processLifecycle_hands (lifecycle : Lifecycle) :
    Hands (processLifecycle lifecycle) (owed lifecycle.notices) fun _ => 0 :=
  (processLifecycleStates_hands lifecycle lifecycle.states).bind fun _ => calm_ite calm_read (hands_pure rfl)

/-- An item is processed with all that stood in the queue for it. -/
theorem processItem_hands (pipeline : Pipeline) (item : Item) :
    Hands (processItem pipeline item) item.share fun _ => 0 := by
  cases item with
  | lifecycle lifecycle => exact processLifecycle_hands lifecycle
  | hit candidates hit =>
    refine Program.Keeps.then (processCandidates_keeps pipeline hit candidates) fun processed l hl => ?_
    obtain ⟨still, hsub, hdone, rfl⟩ := hl
    obtain ⟨found, done⟩ := processed
    cases done with
    | true =>
      rw [hdone rfl]
      exact hands_pure rfl
    | false =>
      exact (releaseAll_hands hsub).bind fun _ => (processLifecycle_hands ⟨.error, _, _⟩).bind fun _ =>
        calm_ite calm_read (hands_pure rfl)

theorem drainQueue_calm (pipeline : Pipeline) (turns : ℕ) : Calm (drainQueue pipeline turns) := by
  induction turns with
  | zero => exact hands_pure rfl
  | succ turns ih =>
    refine getNowait_hands.bind fun item => ?_
    rcases item with - | item
    · exact hands_pure rfl
    · exact (processItem_hands pipeline item).bind fun _ => calm_ite ih (hands_pure rfl)

theorem maybeRearm_calm : Calm maybeRearm := by
  refine Calm.bind (calm_silent (fun s => ?_) (fun s => ?_) fun s => ?_) fun _ =>
    calm_ite (announceActive_calm .rearmed (fun h => by cases h) _) (hands_pure rfl)
  all_goals split <;> rfl

/-! ### Reconciling -/

theorem newState_calm (probe : PlacedProbe) : Calm (newState probe) := by
  refine hands_books (fun _ => rfl) fun s t l hbooks => ?_
  rw [List.append_nil]
  exact hbooks.newState probe

/-- A probe that goes, goes with its state: its debts are in the queue. -/
theorem reconcileStates_calm (pipeline : Pipeline) (parsed : JsMap PyString PlacedProbe)
    (entries : List (PyString × ℕ)) : Calm (reconcileStates pipeline parsed entries) := by
  induction entries with
  | nil => exact hands_pure rfl
  | cons entry rest ih =>
    obtain ⟨probeId, o⟩ := entry
    rw [reconcileStates]
    split
    · exact (deactivate_calm o).bind fun _ =>
        Calm.bind (calm_silent (fun _ => rfl) (fun _ => rfl) fun _ => rfl) fun _ =>
          ih.bind fun _ => hands_pure rfl
    · refine calm_read.bind fun state => calm_ite ?_ ?_
      · exact ih.bind fun _ => calm_ite (hands_pure rfl) (hands_pure rfl)
      · exact (deactivate_calm o).bind fun _ => (newState_calm _).bind fun _ => ih.bind fun _ => hands_pure rfl

theorem addMissing_calm (probes : List PlacedProbe) : Calm (addMissing probes) := by
  induction probes with
  | nil => exact hands_pure rfl
  | cons probe rest ih =>
    exact calm_read.bind fun _ =>
      calm_ite ih ((newState_calm probe).bind fun _ => ih.bind fun _ => hands_pure rfl)

theorem announceTargets_calm (resolve : PlacedProbe → Option PyString) (armed states : List ℕ) :
    Calm (announceTargets resolve armed states) := by
  induction states generalizing armed with
  | nil => exact calm_ite (hands_pure rfl) (enqueueLifecycle_hands .armed _ _)
  | cons o rest ih =>
    refine calm_read.bind fun state => ?_
    rcases state with - | state
    · exact ih armed
    · refine Calm.bind (setState_calm o (fun _ => rfl) (fun _ => rfl) (fun _ => rfl) fun _ => id) fun _ => ?_
      split
      · exact ih _
      · exact calm_ite (ih armed) ((enqueueLifecycle_hands .error [o] _).bind fun _ => ih armed)

theorem reconcile_calm (pipeline : Pipeline) (resolve : PlacedProbe → Option PyString)
    (parsed : JsMap PyString PlacedProbe) : Calm (reconcile pipeline resolve parsed) := by
  refine calm_read.bind fun entries => (reconcileStates_calm pipeline parsed entries).bind fun found =>
    (addMissing_calm _).bind fun added => ?_
  refine Calm.bind (calm_ite (hands_pure rfl) refreshActiveIndex_calm) fun _ => calm_ite ?_ (hands_pure rfl)
  exact Calm.bind (calm_ite (hands_pure rfl) (enqueueLifecycle_hands .expired _ _)) fun _ =>
    announceTargets_calm resolve [] _

theorem stopTimedOut_calm (detail : PyString) : Calm (stopTimedOut detail) :=
  Calm.bind (calm_silent (fun _ => rfl) (fun _ => rfl) fun _ => rfl) fun _ =>
    announceActive_calm .error (fun h => by cases h) detail

/-! ### Runs -/

variable {pipeline : Pipeline} {queueSize : ℕ} {c : AgentSystem}

/-- Every program of every thread, by what it begins with. -/
theorem respects (pipeline : Pipeline) : Respects Moves (Begins pipeline) Ledger fun _ l => l = 0 where
  environment {s s' t l} hm h := by
    have hqueued : s'.queued = s.queued := by rw [Agent.queued, hm.rawQueue]; rfl
    rw [Ledger, hm.states, hm.reservations, hqueued]
    exact h
  start {e p} hb := by
    refine ⟨0, ?_, fun s t l h => ?_⟩
    · cases hb with
      | onLine e => exact onLine_calm e
      | drainQueue turns => exact drainQueue_calm pipeline turns
      | maybeRearm => exact maybeRearm_calm
      | reconcile resolve parsed => exact reconcile_calm pipeline resolve parsed
      | stop detail => exact stopTimedOut_calm detail
    · have he : e = .begun := by cases hb <;> rfl
      rw [he, add_zero]
      exact Books.settle [] (by rw [show owed [] = 0 from rfl, zero_add]; exact h) fun _ => rfl

/-- The books are right in every state that a run comes to. -/
theorem sound_of_run (hrun : AgentRun pipeline (Agent.idle queueSize) c) : c.Sound Ledger fun _ l => l = 0 := by
  refine hrun.sound (respects pipeline) (System.sound_of_idle ?_)
  refine ⟨fun o state ho => ?_, fun _ hmem => absurd hmem List.not_mem_nil, fun r reservation hr => ?_,
    fun o r hmem => absurd hmem (Multiset.notMem_zero _), fun o => rfl⟩
  · cases ho
  · cases hr

/-- What every hand has in hand is zero, once all programs are done and the queue is empty. -/
theorem books_of_quiescent (hrun : AgentRun pipeline (Agent.idle queueSize) c) (hquiet : c.Quiescent)
    (hqueue : c.shared.rawQueue = []) : Books c.shared.states c.shared.reservations c.trace 0 := by
  obtain ⟨l, hl, hledger⟩ := (sound_of_run hrun).quiescent hquiet ⊥ fun _ l hl => AddSubmonoid.mem_bot.mpr hl
  rw [AddSubmonoid.mem_bot.mp hl, Ledger, Agent.queued, hqueue] at hledger
  exact hledger

/-- A state never has more hits than its limit, in flight or emitted; once the
queue is drained none is in flight; and the state that reached its limit was
reported once, unless its notice was lost. -/
theorem reservations_settle (hrun : AgentRun pipeline (Agent.idle queueSize) c) {o : ℕ} {state : ProbeState}
    (ho : c.shared.states[o]? = some state) :
    state.emitted + state.inFlight ≤ state.probe.hitLimit ∧ notices c.trace o ≤ 1 ∧
      (c.Quiescent → c.shared.rawQueue = [] →
        state.inFlight = 0 ∧
          (notices c.trace o = 1 ↔ state.probe.hitLimit ≤ state.emitted ∧ losses c.trace o = 0)) := by
  obtain ⟨shares, -, hledger⟩ := sound_of_run hrun
  refine ⟨(hledger.sound o state ho).bounded, ?_, fun hquiet hqueue => ?_⟩
  · have hsettled := hledger.settled o
    rw [ho] at hsettled
    have hreached : state.reached ≤ 1 := by
      unfold ProbeState.reached
      split <;> omega
    have heq : state.reached = _ := hsettled
    omega
  · have hbooks := books_of_quiescent hrun hquiet hqueue
    have hsound := hbooks.sound o state ho
    have hnone : c.shared.reservations.countP (ProbeReservation.stands o) = 0 := by
      rw [List.countP_eq_zero]
      intro reservation hmem hstands
      simp only [ProbeReservation.stands, Bool.and_eq_true, decide_eq_true_eq, Bool.not_eq_true'] at hstands
      obtain ⟨r, hr⟩ := List.getElem?_of_mem hmem
      exact Multiset.notMem_zero _ (hbooks.placed r reservation hr hstands.2)
    rw [hnone] at hsound
    refine ⟨hsound.inFlight, ?_⟩
    have hsettled := hbooks.settled o
    rw [ho] at hsettled
    have heq : state.reached = notices c.trace o + losses c.trace o := by
      rw [show state.reached = _ from hsettled]
      show Multiset.count o 0 + _ + _ = _
      rw [Multiset.count_zero, Nat.zero_add]
    unfold ProbeState.reached at heq
    split at heq
    · next hreached => exact ⟨fun h => ⟨hreached, by omega⟩, fun h => by omega⟩
    · next hbelow => exact ⟨fun h => by omega, fun h => absurd h.1 hbelow⟩

/-! ### Two runs -/

/-- A program begins, and makes so many steps alone. -/
def carry (p : Code Unit) (steps : ℕ) (c : AgentSystem) : AgentSystem :=
  (List.replicate steps c.programs.length).foldl (fun c i => c.advance i)
    { c with trace := c.trace ++ [.begun], programs := c.programs ++ [p] }

/-- Steps of one thread are a run. -/
theorem run_carry {c' : AgentSystem} (h : AgentRun pipeline c c') {p : Code Unit}
    (hp : Begins pipeline .begun p) (steps : ℕ) : AgentRun pipeline c (carry p steps c') :=
  (h.tail (.start hp)).trans (Run.schedule _ _)

namespace Sample

def counting : Pipeline where
  condition _ _ := some true
  produce _ _ := some .counter
  adds _ _ := true
  same _ _ := true

/-- A counter that is to count one hit. -/
def counter : PlacedProbe where
  probeId := py "prb_small"
  kind := .counter
  file := py "app.py"
  suffix := py "app.py"
  line := 3
  hitLimit := 1
  hitLimit_pos := by decide

/-- The line is reached when the budget is spent. -/
def overBudget : LineEvent where
  filename := py "app.py"
  line := 3
  budget := false
  capture := .missing
  exceeded := false

/-- The counter is armed, its line is reached, and the queue is drained. -/
def drained (queueSize : ℕ) : AgentSystem :=
  carry (drainQueue counting 2) 18 <| carry (onLine overBudget) 18 <|
    carry (reconcile counting (fun _ => none) (JsMap.ofEntries [(counter.probeId, counter)])) 18 <|
      Agent.idle queueSize

theorem run_drained (queueSize : ℕ) : AgentRun counting (Agent.idle queueSize) (drained queueSize) :=
  run_carry (run_carry (run_carry .refl (.reconcile _ _) 18) (.onLine _) 18) (.drainQueue 2) 18

theorem reached_drained (queueSize : ℕ)
    (h : ((drained queueSize).shared.states[0]?.map ProbeState.reached) = some 1) :
    ∃ state, (drained queueSize).shared.states[0]? = some state ∧ state.probe.hitLimit ≤ state.emitted := by
  obtain ⟨state, hstate, hreached⟩ := Option.map_eq_some_iff.mp h
  refine ⟨state, hstate, ?_⟩
  unfold ProbeState.reached at hreached
  split at hreached
  · assumption
  · cases hreached

set_option maxRecDepth 1000 in
/-- With room for the notice behind the report that the probe is armed, it is given. -/
theorem roomy_noticed : ∃ state, (drained 2).shared.states[0]? = some state ∧ state.inFlight = 0 ∧
    notices (drained 2).trace 0 = 1 := by
  obtain ⟨state, hstate, hreached⟩ := reached_drained 2 (by decide)
  have hsettle := (reservations_settle (run_drained 2) hstate).2.2 (by decide)
    (List.isEmpty_iff.mp (by decide))
  exact ⟨state, hstate, hsettle.1, hsettle.2.mpr ⟨hreached, by decide⟩⟩

set_option maxRecDepth 1000 in
/-- A queue of one still holds that report when the limit is reached: the state
is never reported. -/
theorem full_unnoticed :
    ¬ ∀ (pipeline : Pipeline) (queueSize : ℕ) (c : AgentSystem), 0 < queueSize →
      AgentRun pipeline (Agent.idle queueSize) c → c.Quiescent → c.shared.rawQueue = [] →
        ∀ (o : ℕ) state, c.shared.states[o]? = some state → state.probe.hitLimit ≤ state.emitted →
          notices c.trace o = 1 := by
  intro hclaim
  obtain ⟨state, hstate, hreached⟩ := reached_drained 1 (by decide)
  have hnotice := hclaim counting 1 (drained 1) Nat.one_pos (run_drained 1) (by decide)
    (List.isEmpty_iff.mp (by decide)) 0 state hstate hreached
  exact absurd hnotice (by decide)

end Sample

end PythonAgent
