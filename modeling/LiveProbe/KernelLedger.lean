/-
LiveProbe/KernelLedger.lean

The books of the kernel programs: what the trace of a system says of its maps.

Every execution still owes some of what it is to do (`Share`), and the `Ledger`
of one cookie balances at every step of every execution: its counters hold what
the trace says was stored, the executions that began are those that counted
their hit or owe it, the captures are the reservations that stand and the
refused ones still to be undone, and the word of the rate is the bucket after
the takes of the trace.
-/
import LiveProbe.Kernel
import LiveProbe.TokenBucket

namespace Bpf

open Interleaving TokenBucket

variable {cpus : ℕ}

/-! ### The word of the rate -/

/-- The bucket in a word. -/
def unpack (word : UInt64) : Bucket := ⟨(word >>> 32).toNat, word.toUInt32.toNat⟩

theorem unpack_pack {second : UInt64} {tokens : UInt64} (hs : second.toNat < 2 ^ 32) (ht : tokens.toNat < 2 ^ 32) :
    unpack ((second <<< 32) ||| tokens) = ⟨second.toNat, tokens.toNat⟩ := by
  have hshift : (second <<< 32).toNat = second.toNat * 2 ^ 32 := by
    rw [UInt64.toNat_shiftLeft, Nat.shiftLeft_eq]
    show second.toNat * 2 ^ 32 % 2 ^ 64 = _
    omega
  have hword : ((second <<< 32) ||| tokens).toNat = second.toNat * 2 ^ 32 + tokens.toNat := by
    rw [UInt64.toNat_or, hshift, ← Nat.shiftLeft_eq, Nat.shiftLeft_add_eq_or_of_lt ht]
  have hsecond : (((second <<< 32) ||| tokens) >>> 32).toNat = second.toNat := by
    rw [UInt64.toNat_shiftRight, hword, Nat.shiftRight_eq_div_pow]
    show (second.toNat * 2 ^ 32 + tokens.toNat) / 2 ^ 32 = _
    omega
  have htokens : ((second <<< 32) ||| tokens).toUInt32.toNat = tokens.toNat := by
    rw [UInt64.toNat_toUInt32, hword]
    omega
  rw [unpack, hsecond, htokens]

theorem unpack_second_lt (word : UInt64) : (unpack word).second < 2 ^ 32 := by
  show (word >>> 32).toNat < _
  rw [UInt64.toNat_shiftRight, Nat.shiftRight_eq_div_pow]
  have := word.toNat_lt
  show word.toNat / 2 ^ 32 < _
  omega

theorem refilled_toNat (plan : Plan) {now : UInt64} (word : UInt64) (hnow : now.toNat < 2 ^ 32) :
    Bucket.mk (refilled plan now word).1.toNat (refilled plan now word).2.toNat =
      (unpack word).fill plan.burst plan.refillPerSecond now.toNat := by
  have hburst := plan.burst_lt
  have hrefill := plan.refillPerSecond_lt
  have hlast := unpack_second_lt word
  have hlt : (unpack word).tokens < 2 ^ 32 := word.toUInt32.toNat_lt
  have htokens : word.toUInt32.toUInt64.toNat = (unpack word).tokens := UInt32.toNat_toUInt64 _
  have hB : (UInt64.ofNat plan.burst).toNat = plan.burst := UInt64.toNat_ofNat_of_lt' (hburst.trans (by decide))
  have hR : (UInt64.ofNat plan.refillPerSecond).toNat = plan.refillPerSecond :=
    UInt64.toNat_ofNat_of_lt' (hrefill.trans (by decide))
  by_cases h : word >>> 32 < now
  · have hsecond : (unpack word).second < now.toNat := UInt64.lt_iff_toNat_lt.1 h
    have hsub : (now - (word >>> 32)).toNat = now.toNat - (unpack word).second :=
      UInt64.toNat_sub_of_le _ _ (UInt64.le_of_lt h)
    have hmul : (now.toNat - (unpack word).second) * plan.refillPerSecond ≤ (2 ^ 32 - 1) * (2 ^ 32 - 1) :=
      Nat.mul_le_mul (by omega) (by omega)
    have hadded : ((now - (word >>> 32)) * UInt64.ofNat plan.refillPerSecond).toNat =
        (now.toNat - (unpack word).second) * plan.refillPerSecond := by
      rw [UInt64.toNat_mul, hsub, hR]
      exact Nat.mod_eq_of_lt (by omega)
    have hsum : (word.toUInt32.toUInt64 + (now - (word >>> 32)) * UInt64.ofNat plan.refillPerSecond).toNat =
        (unpack word).tokens + (now.toNat - (unpack word).second) * plan.refillPerSecond := by
      rw [UInt64.toNat_add, htokens, hadded]
      exact Nat.mod_eq_of_lt (by omega)
    rw [refilled, if_pos h, Bucket.fill, if_pos hsecond]
    simp only [UInt64.lt_iff_toNat_lt, hB, hsum]
    split
    · rw [hB, Nat.min_eq_right (by omega)]
    · rw [hsum, Nat.min_eq_left (by omega)]
  · have hsecond : ¬ (unpack word).second < now.toNat := fun hlt => h (UInt64.lt_iff_toNat_lt.2 hlt)
    rw [refilled, if_neg h, Bucket.fill, if_neg hsecond]
    exact congrArg (Bucket.mk _) htokens

theorem refilled_lt (plan : Plan) {now : UInt64} (word : UInt64) (hnow : now.toNat < 2 ^ 32) :
    (refilled plan now word).1.toNat < 2 ^ 32 ∧ (refilled plan now word).2.toNat < 2 ^ 32 := by
  have hburst := plan.burst_lt
  have hlast := unpack_second_lt word
  have htokens : (unpack word).tokens < 2 ^ 32 := word.toUInt32.toNat_lt
  have hfilled := refilled_toNat plan word hnow
  unfold Bucket.fill at hfilled
  split at hfilled <;> injection hfilled with h₁ h₂ <;> rw [h₁, h₂]
  · exact ⟨hnow, (Nat.min_le_right _ _).trans_lt hburst⟩
  · exact ⟨hlast, htokens⟩

/-- The word is swapped as tokens are taken of the bucket. -/
theorem nextWord_eq_some {plan : Plan} {now word word' : UInt64} (hnow : now.toNat < 2 ^ 32)
    (h : nextWord plan now word = some word') :
    (unpack word).take plan.burst plan.refillPerSecond now.toNat = some (unpack word') := by
  have hfilled := refilled_toNat plan word hnow
  obtain ⟨hsecond, htokens⟩ := refilled_lt plan word hnow
  unfold nextWord at h
  simp only [Option.ite_none_left_eq_some, Option.some.injEq] at h
  obtain ⟨hpos, rfl⟩ := h
  have hpos' : (refilled plan now word).2.toNat ≠ 0 := fun h => hpos (UInt64.toNat_inj.1 h)
  have hless : ((refilled plan now word).2 - 1).toNat = (refilled plan now word).2.toNat - 1 :=
    UInt64.toNat_sub_of_le _ _ (UInt64.le_iff_toNat_le.2 (Nat.one_le_iff_ne_zero.2 hpos'))
  have hcast : (((refilled plan now word).2 - 1).toUInt32.toUInt64).toNat =
      (refilled plan now word).2.toNat - 1 := by
    rw [UInt32.toNat_toUInt64, UInt64.toNat_toUInt32, hless]
    omega
  rw [unpack_pack hsecond (by omega), hcast, Bucket.take, ← hfilled]
  exact if_neg hpos'

/-! ### What the trace says -/

def executions (t : List Event) : ℕ := t.count .entered

/-- Increments of a map that were made, stored or lost. -/
def stored (map : CounterMap) (t : List Event) : ℕ := t.count (.counted map true)
def lost (map : CounterMap) (t : List Event) : ℕ := t.count (.counted map false)

@[simp] def Event.isGranted : Event → Bool
  | .reserved _ granted => granted
  | _ => false

/-- Successes of `reserve_hit`, and those a full ring buffer gave back. -/
def granted (t : List Event) : ℕ := t.countP Event.isGranted
def released (t : List Event) : ℕ := t.count .released

@[simp] def Event.takenAt : Event → Option ℕ
  | .taken _ clock => some clock.toNat
  | _ => none

/-- The clock at the successes of `consume_token`. -/
def takes (t : List Event) : List ℕ := t.filterMap Event.takenAt

/-- The captures are not at the end of their width when one more is added. -/
@[simp] def Event.countable : Event → Prop
  | .reserved previous _ => previous.toNat + 1 < 2 ^ 64
  | _ => True

/-- The seconds fit in half a word, and a token is taken in the second that the
execution read. -/
@[simp] def Event.timely : Event → Prop
  | .seeded second => second.toNat < 2 ^ 32
  | .taken now clock => now = clock ∧ clock.toNat < 2 ^ 32
  | _ => True

instance : DecidablePred Event.countable := fun e => by
  cases e <;> unfold Event.countable <;> infer_instance

instance : DecidablePred Event.timely := fun e => by
  cases e <;> unfold Event.timely <;> infer_instance

def Countable (t : List Event) : Prop := ∀ e ∈ t, e.countable
def Timely (t : List Event) : Prop := ∀ e ∈ t, e.timely

instance (t : List Event) : Decidable (Countable t) := inferInstanceAs (Decidable (∀ e ∈ t, e.countable))
instance (t : List Event) : Decidable (Timely t) := inferInstanceAs (Decidable (∀ e ∈ t, e.timely))

section
variable {t : List Event} {e : Event} {map map' : CounterMap}

@[simp] theorem executions_append : executions (t ++ [e]) = executions t + if e = .entered then 1 else 0 := by
  simp [executions, List.count_append, List.count_singleton]

@[simp] theorem stored_append :
    stored map (t ++ [e]) = stored map t + if e = .counted map true then 1 else 0 := by
  simp [stored, List.count_append, List.count_singleton]

@[simp] theorem lost_append : lost map (t ++ [e]) = lost map t + if e = .counted map false then 1 else 0 := by
  simp [lost, List.count_append, List.count_singleton]

@[simp] theorem granted_append : granted (t ++ [e]) = granted t + if e.isGranted then 1 else 0 := by
  simp [granted, List.countP_append, List.countP_cons]

@[simp] theorem released_append : released (t ++ [e]) = released t + if e = .released then 1 else 0 := by
  simp [released, List.count_append, List.count_singleton]

@[simp] theorem takes_append : takes (t ++ [e]) = takes t ++ e.takenAt.toList := by
  rw [takes, List.filterMap_append]
  cases e <;> rfl

@[simp] theorem countable_append : Countable (t ++ [e]) ↔ Countable t ∧ e.countable := by
  unfold Countable
  rw [List.forall_mem_append, List.forall_mem_singleton]

@[simp] theorem timely_append : Timely (t ++ [e]) ↔ Timely t ∧ e.timely := by
  unfold Timely
  rw [List.forall_mem_append, List.forall_mem_singleton]

end

/-! ### The counters -/

/-- `BpfManager::counters`: hits, captures and dropped events. -/
def Kernel.readCounters (s : Kernel cpus) (cookie : Cookie) : UInt64 × UInt64 × UInt64 :=
  (s.total cookie .rawHitCounters, s.total cookie .captureCounters, s.total cookie .droppedEventCounters)

theorem sum_add (cpu : Fin cpus) (value : PerCpu cpus) : ∑ i, PerCpu.add cpu value i = ∑ i, value i + 1 := by
  unfold PerCpu.add
  rw [Finset.sum_update_of_mem (Finset.mem_univ cpu), ← Finset.sum_sdiff (Finset.subset_univ {cpu}),
    Finset.sum_singleton, add_comm (value cpu + 1), add_assoc]

/-! ### The ledger -/

/-- What an execution still owes or holds: the increment of its raw hit, the
reservation that it may still make, the reservation that it made and is neither
counted nor given back, the refused one that is still to be undone, and the
seconds that it read from the clock. -/
@[ext] structure Share where
  raw : ℕ := 0
  fresh : ℕ := 0
  held : ℕ := 0
  undo : ℕ := 0
  readings : Multiset UInt64 := 0

namespace Share

instance : Zero Share := ⟨{}⟩

instance : Add Share where
  add l r :=
    { raw := l.raw + r.raw
      fresh := l.fresh + r.fresh
      held := l.held + r.held
      undo := l.undo + r.undo
      readings := l.readings + r.readings }

section
variable (l r : Share)

@[simp] theorem raw_add : (l + r).raw = l.raw + r.raw := rfl
@[simp] theorem fresh_add : (l + r).fresh = l.fresh + r.fresh := rfl
@[simp] theorem held_add : (l + r).held = l.held + r.held := rfl
@[simp] theorem undo_add : (l + r).undo = l.undo + r.undo := rfl
@[simp] theorem readings_add : (l + r).readings = l.readings + r.readings := rfl
@[simp] theorem raw_zero : (0 : Share).raw = 0 := rfl
@[simp] theorem fresh_zero : (0 : Share).fresh = 0 := rfl
@[simp] theorem held_zero : (0 : Share).held = 0 := rfl
@[simp] theorem undo_zero : (0 : Share).undo = 0 := rfl
@[simp] theorem readings_zero : (0 : Share).readings = 0 := rfl

end

instance : AddCommMonoid Share where
  add_assoc a b c := Share.ext (add_assoc _ _ _) (add_assoc _ _ _) (add_assoc _ _ _) (add_assoc _ _ _)
    (add_assoc _ _ _)
  zero_add a := Share.ext (zero_add _) (zero_add _) (zero_add _) (zero_add _) (zero_add _)
  add_zero a := Share.ext (add_zero _) (add_zero _) (add_zero _) (add_zero _) (add_zero _)
  add_comm a b := Share.ext (add_comm _ _) (add_comm _ _) (add_comm _ _) (add_comm _ _) (add_comm _ _)
  nsmul := nsmulRec

@[simp] def rawHit : Share := { raw := 1 }
@[simp] def chance : Share := { fresh := 1 }
@[simp] def reservation : Share := { held := 1 }
@[simp] def refusal : Share := { undo := 1 }
@[simp] def reading (second : UInt64) : Share := { readings := {second} }

/-- What an increment of a map settles. -/
@[simp] def owed : CounterMap → Share
  | .rawHitCounters => rawHit
  | .captureCounters => reservation
  | _ => 0

end Share

/-- The state of the rate: the word is what the takes left of a bucket. -/
structure RateLedger (plan : Plan) (cookie : Cookie) (s : Kernel cpus) (t : List Event) : Prop where
  absent : s.rateLimitState.lookup cookie = none → takes t = []
  present : ∀ word, s.rateLimitState.lookup cookie = some word →
    (unpack word).second ≤ s.second.toNat ∧ ∃ bucket₀ : Bucket, bucket₀.tokens ≤ plan.burst ∧
      Takes plan.burst plan.refillPerSecond bucket₀ (takes t) (unpack word)

structure Ledger (plan : Plan) (cookie : Cookie) (drops : Prop) (s : Kernel cpus) (t : List Event)
    (l : Share) : Prop where
  admitted : s.probePlans.lookup cookie = some plan
  state : ∃ state, s.probeState.lookup cookie = some state ∧
    (Countable t → state.captures.toNat + released t = granted t + l.undo)
  limit : Countable t → granted t ≤ released t + plan.hitLimit
  countable : executions t < 2 ^ 64 → Countable t
  counter : ∀ map, s.total cookie map = UInt64.ofNat (stored map t)
  raw : executions t = stored .rawHitCounters t + lost .rawHitCounters t + l.raw
  held : granted t = released t + stored .captureCounters t + lost .captureCounters t + l.held
  fresh : granted t + l.undo + l.fresh ≤ executions t
  readings : ∀ second ∈ l.readings, second ≤ s.second
  rate : Timely t → RateLedger plan cookie s t
  /-- Reservations are given back only where records are dropped. -/
  kept : ¬ drops → released t = 0

section
variable {plan : Plan} {cookie : Cookie} {drops : Prop} {s s' : Kernel cpus} {t : List Event} {l l' r : Share}

theorem RateLedger.congr (h : RateLedger plan cookie s t)
    (hlookup : s'.rateLimitState.lookup cookie = s.rateLimitState.lookup cookie)
    (hsecond : s.second ≤ s'.second) {t' : List Event} (ht : takes t' = takes t) :
    RateLedger plan cookie s' t' := by
  refine ⟨fun habsent => ?_, fun word hword => ?_⟩
  · rw [ht]
    exact h.absent (hlookup ▸ habsent)
  · obtain ⟨hle, hbucket⟩ := h.present word (hlookup ▸ hword)
    rw [ht]
    exact ⟨hle.trans (UInt64.le_iff_toNat_le.1 hsecond), hbucket⟩

theorem total_congr {map : CounterMap}
    (h : (s'.counters map).lookup cookie = (s.counters map).lookup cookie) :
    s'.total cookie map = s.total cookie map := by
  rw [Kernel.total, h, Kernel.total]

/-- What happens beside the executions leaves the ledger alone. -/
theorem Ledger.moves (h : Ledger plan cookie drops s t l) (hm : Moves cookie s s') :
    Ledger plan cookie drops s' t l := by
  have hsecond : s.second ≤ s'.second :=
    UInt64.le_iff_toNat_le.2 (Nat.div_le_div_right (UInt64.le_iff_toNat_le.1 hm.ktime))
  exact {
    h with
    admitted := hm.probePlans.trans h.admitted
    state := by rw [hm.probeState]; exact h.state
    counter := fun map => (total_congr (hm.counters map)).trans (h.counter map)
    readings := fun second hin => UInt64.le_trans (h.readings second hin) hsecond
    rate := fun ht => (h.rate ht).congr hm.rateLimitState hsecond rfl }

/-- An execution begins: it owes its raw hit and may reserve. -/
theorem Ledger.entered (h : Ledger plan cookie drops s t l) :
    Ledger plan cookie drops s (t ++ [.entered]) (l + (Share.rawHit + Share.chance)) := by
  have hraw := h.raw
  have hfresh := h.fresh
  exact {
    admitted := h.admitted
    state := by simpa using h.state
    limit := by simpa using h.limit
    countable := by
      intro hlt
      simp only [executions_append, if_true] at hlt
      simpa using h.countable (by omega)
    counter := by simpa using h.counter
    raw := by simp; omega
    held := by simpa using h.held
    fresh := by simp; omega
    readings := by simpa using h.readings
    rate := by
      rw [timely_append]
      exact fun ht => (h.rate ht.1).congr (by rfl) (by exact UInt64.le_refl _) (by simp)
    kept := by simpa using h.kept }

/-! ### What the steps do to it -/

/-- An increment settles what was owed of its map, stored or not. -/
theorem Ledger.counted {map : CounterMap} {table : Table (PerCpu cpus)} {b : Bool}
    (h : Ledger plan cookie drops s t (Share.owed map + l))
    (htotal : ∑ cpu, ((table.lookup cookie).getD 0) cpu = s.total cookie map + if b then 1 else 0) :
    Ledger plan cookie drops (s.setCounters map table) (t ++ [.counted map b]) l := by
  have hraw := h.raw
  have hheld := h.held
  exact {
    admitted := h.admitted
    state := by cases map <;> simpa using h.state
    limit := by simpa using h.limit
    countable := by simpa using h.countable
    counter := by
      intro map'
      rw [stored_append]
      by_cases hmap : map' = map
      · subst hmap
        have hset : (s.setCounters map' table).total cookie map' =
            s.total cookie map' + if b then 1 else 0 := by
          rw [← htotal, Kernel.total, Kernel.setCounters_counters]
        rw [hset, h.counter map']
        cases b <;> simp [UInt64.ofNat_add]
      · have hset : (s.setCounters map table).total cookie map' = s.total cookie map' :=
          total_congr (by rw [Kernel.setCounters_counters_of_ne _ _ hmap])
        rw [hset, h.counter map', if_neg fun heq => hmap (by injection heq with hmap; exact hmap.symm)]
        rfl
    raw := by cases map <;> cases b <;> simp at hraw ⊢ <;> omega
    held := by cases map <;> cases b <;> simp at hheld ⊢ <;> omega
    fresh := by cases map <;> simpa using h.fresh
    readings := by cases map <;> simpa using h.readings
    rate := by
      rw [timely_append]
      exact fun ht => (h.rate ht.1).congr (by rfl) (by exact UInt64.le_refl _) (by simp)
    kept := by simpa using h.kept }

theorem Ledger.captures_eq (h : Ledger plan cookie drops s t l) :
    ∃ state, s.probeState.lookup cookie = some state ∧ s.captures cookie = state.captures ∧
      (Countable t → state.captures.toNat + released t = granted t + l.undo) := by
  obtain ⟨state, hstate, hbooks⟩ := h.state
  exact ⟨state, hstate, by rw [Kernel.captures, hstate]; rfl, hbooks⟩

/-- The addition of `reserve_hit`: a reservation below the limit, else one to be undone. -/
theorem Ledger.reserved (h : Ledger plan cookie drops s t (Share.chance + l)) :
    Ledger plan cookie drops
      (s.modifyState cookie fun state => { state with captures := state.captures + 1 })
      (t ++ [.reserved (s.captures cookie) (decide ((s.captures cookie).toNat < plan.hitLimit))])
      ((if (s.captures cookie).toNat < plan.hitLimit then Share.reservation else Share.refusal) + l) := by
  obtain ⟨state, hstate, hcaptures, hbooks⟩ := h.captures_eq
  have hheld := h.held
  have hfresh := h.fresh
  have hlimit := h.limit
  rw [hcaptures]
  simp only [Share.undo_add, Share.held_add, Share.fresh_add, Share.chance, Nat.zero_add] at hbooks hheld hfresh
  exact {
    admitted := h.admitted
    state := by
      refine ⟨{ state with captures := state.captures + 1 }, by rw [Kernel.modifyState_lookup, hstate]; rfl, ?_⟩
      rw [countable_append]
      rintro ⟨hcount, hfits⟩
      have hadd : (state.captures + 1).toNat = state.captures.toNat + 1 := by
        rw [UInt64.toNat_add]
        exact Nat.mod_eq_of_lt hfits
      have := hbooks hcount
      show (state.captures + 1).toNat + _ = _
      rw [hadd]
      split <;> simp [*] <;> omega
    limit := by
      rw [countable_append]
      rintro ⟨hcount, -⟩
      have := hbooks hcount
      have := hlimit hcount
      simp only [granted_append, released_append, Event.isGranted, decide_eq_true_eq]
      split <;> simp <;> omega
    countable := by
      simp only [executions_append, reduceCtorEq, if_false, Nat.add_zero, countable_append]
      intro hlt
      have hcount := h.countable hlt
      have := hbooks hcount
      refine ⟨hcount, ?_⟩
      show state.captures.toNat + 1 < 2 ^ 64
      omega
    counter := by simpa using h.counter
    raw := by split <;> simpa using h.raw
    held := by
      simp only [granted_append, released_append, Event.isGranted, decide_eq_true_eq]
      split <;> simp <;> omega
    fresh := by
      simp only [granted_append, executions_append, Event.isGranted, decide_eq_true_eq]
      split <;> simp <;> omega
    readings := by split <;> simpa using h.readings
    rate := by
      rw [timely_append]
      exact fun ht => (h.rate ht.1).congr (by rfl) (by exact UInt64.le_refl _) (by simp)
    kept := by simpa using h.kept }

/-- A subtraction from captures that stand. -/
theorem captures_sub {state : ProbeState} {n : ℕ} (h : state.captures.toNat = n + 1) :
    (state.captures - 1).toNat = n := by
  rw [UInt64.toNat_sub_of_le _ _ (UInt64.le_iff_toNat_le.2 (by rw [h]; exact Nat.le_add_left _ _)), h]
  exact Nat.add_sub_cancel _ _

/-- A refused reservation is undone. -/
theorem Ledger.undone (h : Ledger plan cookie drops s t (Share.refusal + l)) :
    Ledger plan cookie drops (s.modifyState cookie fun state => { state with captures := state.captures - 1 })
      t l := by
  obtain ⟨state, hstate, hbooks⟩ := h.state
  have hheld := h.held
  have hfresh := h.fresh
  simp only [Share.undo_add, Share.held_add, Share.fresh_add, Share.refusal, Nat.zero_add] at hbooks hheld hfresh
  exact {
    admitted := h.admitted
    state := by
      refine ⟨{ state with captures := state.captures - 1 }, by rw [Kernel.modifyState_lookup, hstate]; rfl, ?_⟩
      intro hcount
      have := hbooks hcount
      show (state.captures - 1).toNat + _ = _
      rw [captures_sub (n := granted t + l.undo - released t) (by omega)]
      omega
    limit := h.limit
    countable := h.countable
    counter := by simpa using h.counter
    raw := by simpa using h.raw
    held := hheld
    fresh := by omega
    readings := by simpa using h.readings
    rate := fun ht => (h.rate ht).congr (by rfl) (by exact UInt64.le_refl _) rfl
    kept := h.kept }

/-- A reservation whose record was dropped is given back. -/
theorem Ledger.gaveBack (h : Ledger plan cookie drops s t (Share.reservation + l)) (hd : drops) :
    Ledger plan cookie drops (s.modifyState cookie fun state => { state with captures := state.captures - 1 })
      (t ++ [.released]) l := by
  obtain ⟨state, hstate, hbooks⟩ := h.state
  have hheld := h.held
  have hfresh := h.fresh
  have hlimit := h.limit
  simp only [Share.undo_add, Share.held_add, Share.fresh_add, Share.reservation, Nat.zero_add] at hbooks hheld hfresh
  exact {
    admitted := h.admitted
    state := by
      refine ⟨{ state with captures := state.captures - 1 }, by rw [Kernel.modifyState_lookup, hstate]; rfl, ?_⟩
      rw [countable_append]
      rintro ⟨hcount, -⟩
      have := hbooks hcount
      show (state.captures - 1).toNat + _ = _
      rw [captures_sub (n := granted t + l.undo - released t - 1) (by omega)]
      simp
      omega
    limit := by
      rw [countable_append]
      rintro ⟨hcount, -⟩
      have := hlimit hcount
      simp
      omega
    countable := by simpa using h.countable
    counter := by simpa using h.counter
    raw := by simpa using h.raw
    held := by simp; omega
    fresh := by simp; omega
    readings := by simpa using h.readings
    rate := by
      rw [timely_append]
      exact fun ht => (h.rate ht.1).congr (by rfl) (by exact UInt64.le_refl _) (by simp)
    kept := fun hn => absurd hd hn }

/-- A hit that is counted for sampling. -/
theorem Ledger.sampled (h : Ledger plan cookie drops s t l) :
    Ledger plan cookie drops
      (s.modifyState cookie fun state => { state with acceptedRawHits := state.acceptedRawHits + 1 }) t l := by
  obtain ⟨state, hstate, hbooks⟩ := h.state
  exact {
    h with
    admitted := h.admitted
    state := ⟨{ state with acceptedRawHits := state.acceptedRawHits + 1 },
      by rw [Kernel.modifyState_lookup, hstate]; rfl, hbooks⟩
    counter := by simpa using h.counter
    readings := by simpa using h.readings
    rate := fun ht => (h.rate ht).congr (by rfl) (by exact UInt64.le_refl _) rfl }

/-- What the ring buffer does is not in the books. -/
theorem Ledger.ring (h : Ledger plan cookie drops s t l) (room : ℕ) (events : List NativeAgent.RawEvent) :
    Ledger plan cookie drops { s with room, events } t l :=
  { h with
    admitted := h.admitted
    state := h.state
    counter := h.counter
    readings := h.readings
    rate := fun ht => (h.rate ht).congr (by rfl) (by exact UInt64.le_refl _) rfl }

/-- The clock was read. -/
theorem Ledger.read (h : Ledger plan cookie drops s t l) :
    Ledger plan cookie drops s t (Share.reading s.second + l) :=
  { h with
    state := by simpa using h.state
    raw := by simpa using h.raw
    held := by simpa using h.held
    fresh := by simpa using h.fresh
    readings := by
      intro second hin
      simp only [Share.readings_add, Share.reading, Multiset.singleton_add, Multiset.mem_cons] at hin
      rcases hin with rfl | hin
      · exact UInt64.le_refl _
      · exact h.readings second hin }

/-- A reading that is no longer needed. -/
theorem Ledger.forget {second : UInt64} (h : Ledger plan cookie drops s t (Share.reading second + l)) :
    second ≤ s.second ∧ Ledger plan cookie drops s t l := by
  refine ⟨h.readings second (by simp), { h with
    state := by simpa using h.state
    raw := by simpa using h.raw
    held := by simpa using h.held
    fresh := by simpa using h.fresh
    readings := fun second' hin => h.readings second' (by simp [hin]) }⟩

/-- What is done to the word shows in the rate alone. -/
theorem Ledger.word {e : Event} {words : Table UInt64} (h : Ledger plan cookie drops s t l)
    (he : (∃ second, e = .seeded second) ∨ ∃ now second, e = .taken now second)
    (hrate : Timely (t ++ [e]) → RateLedger plan cookie (s.setRate words) (t ++ [e])) :
    Ledger plan cookie drops (s.setRate words) (t ++ [e]) l := by
  rcases he with ⟨second, rfl⟩ | ⟨now, second, rfl⟩
  all_goals exact {
    admitted := h.admitted
    state := by simpa using h.state
    limit := by simpa using h.limit
    countable := by simpa using h.countable
    counter := by simpa using h.counter
    raw := by simpa using h.raw
    held := by simpa using h.held
    fresh := by simpa using h.fresh
    readings := by simpa using h.readings
    rate := hrate
    kept := by simpa using h.kept }

/-- The first word: a full bucket in the second that was read. -/
theorem Ledger.seeded {second : UInt64} {words : Table UInt64}
    (h : Ledger plan cookie drops s t l) (hsecond : second ≤ s.second)
    (habsent : s.rateLimitState.lookup cookie = none)
    (hwords : words.lookup cookie = some ((second <<< 32) ||| UInt64.ofNat plan.burst)) :
    Ledger plan cookie drops (s.setRate words) (t ++ [.seeded second]) l := by
  have hburst : (UInt64.ofNat plan.burst).toNat = plan.burst :=
    UInt64.toNat_ofNat_of_lt' (plan.burst_lt.trans (by decide))
  refine h.word (.inl ⟨second, rfl⟩) ?_
  rw [timely_append]
  rintro ⟨htimely, hfits⟩
  have hnone := (h.rate htimely).absent habsent
  refine ⟨fun hnone => ?_, fun word hword => ?_⟩
  · rw [Kernel.setRate_rateLimitState, hwords] at hnone
    cases hnone
  · rw [Kernel.setRate_rateLimitState, hwords] at hword
    cases hword
    rw [unpack_pack hfits (by rw [hburst]; exact plan.burst_lt), hburst, takes_append, hnone]
    exact ⟨UInt64.le_iff_toNat_le.1 hsecond, _, Nat.le_refl _, .start⟩

/-- A swap takes a token of the bucket. -/
theorem Ledger.swapped {now previous next : UInt64} (h : Ledger plan cookie drops s t l)
    (hword : s.rateLimitState.lookup cookie = some previous) (hnext : nextWord plan now previous = some next) :
    Ledger plan cookie drops (s.setRate (s.rateLimitState.insert cookie next)) (t ++ [.taken now s.second]) l := by
  refine h.word (.inr ⟨now, s.second, rfl⟩) ?_
  rw [timely_append]
  rintro ⟨htimely, rfl, hfits⟩
  obtain ⟨hsecond, bucket₀, htokens, htakes⟩ := (h.rate htimely).present previous hword
  have htake := nextWord_eq_some hfits hnext
  refine ⟨fun hnone => ?_, fun word hin => ?_⟩
  · rw [Kernel.setRate_rateLimitState, AList.lookup_insert] at hnone
    cases hnone
  · rw [Kernel.setRate_rateLimitState, AList.lookup_insert] at hin
    cases hin
    have hlast := (Bucket.take_eq_some htake).1
    rw [Bucket.fill_second hsecond] at hlast
    refine ⟨hlast.le, bucket₀, htokens, ?_⟩
    rw [takes_append]
    exact htakes.take hsecond htake

end

end Bpf
