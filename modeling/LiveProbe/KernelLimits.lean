/-
LiveProbe/KernelLimits.lean

The limits of the kernel programs.

Each function of the programs keeps the ledger, so that it balances in every
state that any number of executions can reach together, whatever happens to the
entries of other cookies.  The hit limit and the token bucket are read off it
(`run_withinLimits`).  The bucket counts the seconds that executions read from
the clock: a token that is taken after the clock has moved on belongs to a
second that is over, and the seconds it falls in can see more than their share
(`burst_exceeded`).
-/
import LiveProbe.KernelLedger

namespace Bpf

open Interleaving TokenBucket Program

variable {cpus : ℕ} {plan : Plan} {cookie : Cookie} {drops : Prop} {l : Share} {x : Context cpus}

/-! ### The functions keep the ledger -/

theorem total_modify (table : Table (PerCpu cpus)) (cpu : Fin cpus) :
    ∑ i, (((table.modify cookie (PerCpu.add cpu)).lookup cookie).getD 0) i =
      ∑ i, ((table.lookup cookie).getD 0) i + if (table.lookup cookie).isSome then 1 else 0 := by
  rw [Table.lookup_modify]
  cases table.lookup cookie with
  | none => exact (add_zero _).symm
  | some value => exact sum_add cpu value

theorem addCounter_keeps {map : CounterMap} (cpu : Fin cpus) :
    (addCounter cpu map cookie).Keeps (Ledger plan cookie drops) (fun _ l' => l' = l) (Share.owed map + l) := by
  refine keeps_act fun s t r h => ⟨l, ?_, rfl⟩
  rw [add_assoc] at h
  exact h.counted (total_modify _ cpu)

theorem insertCounter_keeps {map : CounterMap} (cpu : Fin cpus) :
    (insertCounter cpu map cookie).Keeps (Ledger plan cookie drops) (fun _ l' => l' = l) (Share.owed map + l) := by
  refine keeps_act fun s t r h => ⟨l, ?_, rfl⟩
  rw [add_assoc] at h
  cases hinsert : (s.counters map).insertNew cookie (PerCpu.add cpu 0) with
  | none =>
    have hbooks : Ledger plan cookie drops (s.setCounters map (s.counters map)) (t ++ [.counted map false])
        (l + r) := h.counted (add_zero _).symm
    rw [Kernel.setCounters_self] at hbooks
    exact hbooks
  | some table =>
    obtain ⟨habsent, hvalue⟩ := Table.insertNew_eq_some hinsert
    refine h.counted ?_
    rw [hvalue, Kernel.total, habsent]
    exact sum_add cpu 0

/-- One execution counts, stored or lost. -/
theorem increment_keeps (cpu : Fin cpus) (map : CounterMap) :
    (increment cpu map cookie).Keeps (Ledger plan cookie drops) (fun _ l' => l' = l) (Share.owed map + l) := by
  refine Keeps.then (Q := fun _ l' => l' = Share.owed map + l) (keeps_read fun _ _ _ _ => rfl) ?_
  rintro value _ rfl
  cases value with
  | true => exact addCounter_keeps cpu
  | false => exact insertCounter_keeps cpu

theorem allowed_keeps (candidate : Option Plan) :
    (allowed x candidate cookie).Keeps (Ledger plan cookie drops) (fun _ l' => l' = l) l := by
  unfold allowed
  split
  · exact keeps_pure rfl
  · split
    · exact keeps_pure rfl
    · split
      · exact keeps_pure rfl
      · exact keeps_read fun _ _ _ _ => rfl

/-- The state of an attached cookie is there. -/
theorem lookupState_keeps :
    (lookupState cookie : Code cpus Bool).Keeps (Ledger plan cookie drops) (fun b l' => b = true ∧ l' = l) l := by
  refine keeps_read fun s t r h => ⟨?_, rfl⟩
  obtain ⟨state, hstate, -⟩ := h.state
  rw [hstate]
  rfl

theorem subCaptures_keeps_undo :
    (subCaptures cookie [] : Code cpus Unit).Keeps (Ledger plan cookie drops) (fun _ l' => l' = l)
      (Share.refusal + l) := by
  refine keeps_act fun s t r h => ⟨l, ?_, rfl⟩
  rw [add_assoc] at h
  rw [List.append_nil]
  exact h.undone

/-- A reservation is had or it leaves no trace. -/
theorem reserveHit_keeps :
    (reserveHit plan cookie : Code cpus Bool).Keeps (Ledger plan cookie drops)
      (fun b l' => l' = if b then Share.reservation + l else l) (Share.chance + l) := by
  refine lookupState_keeps.then ?_
  rintro _ l ⟨rfl, rfl⟩
  refine Keeps.then (Q := fun previous l' =>
    l' = (if previous.toNat < plan.hitLimit then Share.reservation else Share.refusal) + l) ?_ ?_
  · refine keeps_act fun s t r h => ⟨_, ?_, rfl⟩
    rw [add_assoc] at h ⊢
    exact h.reserved
  · rintro previous _ rfl
    split
    · rename_i hlimit
      rw [if_neg (Nat.not_lt.2 hlimit)]
      refine subCaptures_keeps_undo.then ?_
      rintro _ _ rfl
      exact keeps_pure rfl
    · rename_i hlimit
      rw [if_pos (Nat.lt_of_not_le hlimit)]
      exact keeps_pure rfl

theorem sampleHit_keeps :
    (sampleHit plan cookie : Code cpus Bool).Keeps (Ledger plan cookie drops) (fun _ l' => l' = l) l := by
  refine lookupState_keeps.then ?_
  rintro _ l ⟨rfl, rfl⟩
  split
  · exact keeps_pure rfl
  · refine Keeps.then (Q := fun _ l' => l' = l) ?_ ?_
    · refine keeps_act fun s t r h => ⟨l, ?_, rfl⟩
      rw [List.append_nil]
      exact h.sampled
    · rintro sequence _ rfl
      exact keeps_pure rfl

theorem attempts_keeps (now : UInt64) (n : ℕ) :
    (attempts plan cookie now n : Code cpus Bool).Keeps (Ledger plan cookie drops) (fun _ l' => l' = l) l := by
  induction n with
  | zero => exact keeps_pure rfl
  | succ n ih =>
    refine Keeps.then (Q := fun _ l' => l' = l) (keeps_read fun _ _ _ _ => rfl) ?_
    rintro previous l rfl
    cases hnext : nextWord plan now previous with
    | none => exact keeps_pure rfl
    | some next =>
      refine Keeps.then (Q := fun _ l' => l' = l) ?_ ?_
      · refine keeps_act fun s t r h => ⟨l, ?_, rfl⟩
        split
        · rename_i hword
          exact h.swapped hword hnext
        · rw [List.append_nil]
          exact h
      · rintro swapped l rfl
        cases swapped with
        | true => exact keeps_pure rfl
        | false => exact ih

/-- The second that an execution reads does not lie ahead of the clock from then on. -/
theorem readSecond_keeps :
    (readSecond : Code cpus UInt64).Keeps (Ledger plan cookie drops)
      (fun second l' => l' = Share.reading second + l) l := by
  refine keeps_act fun s t r h => ⟨_, ?_, rfl⟩
  rw [List.append_nil, add_assoc]
  exact h.read

theorem seedRate_keeps (second : UInt64) :
    (seedRate plan cookie second : Code cpus Unit).Keeps (Ledger plan cookie drops) (fun _ l' => l' = l)
      (Share.reading second + l) := by
  refine keeps_act fun s t r h => ⟨l, ?_, rfl⟩
  rw [add_assoc] at h
  obtain ⟨hsecond, h⟩ := h.forget
  cases hinsert : s.rateLimitState.insertNew cookie ((second <<< 32) ||| UInt64.ofNat plan.burst) with
  | none =>
    rw [Option.isSome_none, if_neg Bool.false_ne_true, List.append_nil]
    exact h
  | some words =>
    obtain ⟨habsent, hvalue⟩ := Table.insertNew_eq_some hinsert
    exact h.seeded hsecond habsent hvalue

theorem consumeToken_keeps :
    (consumeToken plan cookie : Code cpus Bool).Keeps (Ledger plan cookie drops) (fun _ l' => l' = l) l := by
  have hlookup : ∀ l, (lookupRate cookie : Code cpus Bool).Keeps (Ledger plan cookie drops)
      (fun _ l' => l' = l) l := fun l => keeps_read fun _ _ _ _ => rfl
  have hensure : (ensureRate plan cookie : Code cpus Bool).Keeps (Ledger plan cookie drops)
      (fun _ l' => l' = l) l := by
    refine (hlookup l).then ?_
    rintro rate l rfl
    cases rate with
    | true => exact keeps_pure rfl
    | false =>
      refine readSecond_keeps.then ?_
      rintro second _ rfl
      refine (seedRate_keeps second).then ?_
      rintro _ l rfl
      exact hlookup l
  refine hensure.then ?_
  rintro rate l rfl
  cases rate with
  | true =>
    refine Keeps.then (Q := fun _ l' => l' = l) (keeps_read fun _ _ _ _ => rfl) ?_
    rintro now l rfl
    exact attempts_keeps now 8
  | false => exact keeps_pure rfl

/-! ### The programs keep the ledger -/

/-- An execution that ends owes no increment and holds no reservation. -/
def settled : AddSubmonoid Share where
  carrier := { l | l.raw = 0 ∧ l.held = 0 }
  zero_mem' := ⟨rfl, rfl⟩
  add_mem' := by
    rintro a b ⟨ha, ha'⟩ ⟨hb, hb'⟩
    exact ⟨by rw [Share.raw_add, ha, hb], by rw [Share.held_add, ha', hb']⟩

theorem chance_settled : Share.chance ∈ settled := ⟨rfl, rfl⟩

/-- An execution that is refused ends with what it has. -/
theorem reserveHit_ends :
    (reserveHit plan cookie : Code cpus Bool).Keeps (Ledger plan cookie drops)
      (fun b l => if b then l = Share.reservation + 0 else l ∈ settled) Share.chance := by
  rw [← add_zero Share.chance]
  refine reserveHit_keeps.mono ?_
  rintro b _ rfl
  cases b with
  | true => exact if_pos rfl
  | false => exact settled.zero_mem

/-- The plan that an execution finds is that of its cookie. -/
theorem readPlan_keeps :
    (.read fun s => s.probePlans.lookup cookie : Code cpus (Option Plan)).Keeps (Ledger plan cookie drops)
      (fun p l' => p = some plan ∧ l' = l) l :=
  keeps_read fun _ _ _ h => ⟨h.admitted, rfl⟩

theorem liveprobeCount_keeps :
    (liveprobeCount cookie x).Keeps (Ledger plan cookie drops) (fun _ l => l ∈ settled)
      (Share.rawHit + Share.chance) := by
  refine readPlan_keeps.then ?_
  rintro _ _ ⟨rfl, rfl⟩
  refine (increment_keeps x.cpu .rawHitCounters).then ?_
  rintro _ _ rfl
  refine Keeps.then (Q := fun b l => if b then l = Share.reservation + 0 else l ∈ settled) ?_ ?_
  · refine (allowed_keeps (some plan)).and ?_ ?_
    · rintro _ rfl
      exact reserveHit_ends
    · rintro _ rfl
      exact chance_settled
  · rintro admitted l hl
    cases admitted with
    | true =>
      obtain rfl : l = Share.reservation + 0 := hl
      rw [← zero_add (Share.reservation + 0)]
      refine (increment_keeps x.cpu .counterAggregates).then ?_
      rintro _ _ rfl
      refine (increment_keeps x.cpu .captureCounters).mono ?_
      rintro _ _ rfl
      exact settled.zero_mem
    | false => exact keeps_pure hl

/-- A dropped record gives its reservation back. -/
theorem dropRecord_keeps (hd : drops) :
    (dropRecord cookie x).Keeps (Ledger plan cookie drops) (fun _ l' => l' = l) (Share.reservation + l) := by
  rw [← zero_add (Share.reservation + l)]
  refine (increment_keeps x.cpu .droppedEventCounters).then ?_
  rintro _ _ rfl
  refine lookupState_keeps.then ?_
  rintro _ _ ⟨rfl, rfl⟩
  refine keeps_act fun s t r h => ⟨l, ?_, rfl⟩
  rw [add_assoc] at h
  exact h.gaveBack hd

theorem liveprobeSnapshot_keeps (hd : drops) :
    (liveprobeSnapshot cookie x).Keeps (Ledger plan cookie drops) (fun _ l => l ∈ settled)
      (Share.rawHit + Share.chance) := by
  refine readPlan_keeps.then ?_
  rintro _ _ ⟨rfl, rfl⟩
  refine (increment_keeps x.cpu .rawHitCounters).then ?_
  rintro _ _ rfl
  refine Keeps.then (Q := fun b l => if b then l = Share.reservation + 0 else l ∈ settled) ?_ ?_
  · refine (allowed_keeps (some plan)).and ?_ ?_ <;> rintro _ rfl
    swap
    · exact chance_settled
    refine sampleHit_keeps.and ?_ ?_ <;> rintro _ rfl
    swap
    · exact chance_settled
    refine consumeToken_keeps.and ?_ ?_ <;> rintro _ rfl
    swap
    · exact chance_settled
    exact reserveHit_ends
  · rintro admitted l hl
    cases admitted with
    | true =>
      obtain rfl : l = Share.reservation + 0 := hl
      refine Keeps.then (Q := fun _ l => l = Share.reservation + 0) ?_ ?_
      · refine keeps_act fun s t r h => ⟨_, ?_, rfl⟩
        rw [List.append_nil]
        exact h.ring _ _
      · rintro room _ rfl
        cases room with
        | true =>
          refine (increment_keeps x.cpu .captureCounters).then ?_
          rintro _ _ rfl
          refine keeps_act fun s t r h => ⟨0, ?_, settled.zero_mem⟩
          rw [List.append_nil]
          exact h.ring _ _
        | false =>
          refine (dropRecord_keeps hd).mono ?_
          rintro _ _ rfl
          exact settled.zero_mem
    | false => exact keeps_pure hl

/-! ### Runs -/

section
variable {s : Kernel cpus} {c : KernelSystem cpus}
  {programs : List (Cookie → Context cpus → Code cpus Unit)}

/-- The books are opened when the cookie is attached. -/
theorem Attached.ledger (h : Attached cookie plan s) : Ledger plan cookie drops s [] 0 where
  admitted := h.probePlans
  state := ⟨_, h.probeState, fun _ => rfl⟩
  limit := fun _ => Nat.zero_le _
  countable := fun _ e he => by cases he
  counter := by
    intro map
    rw [Kernel.total, h.counters map]
    exact Finset.sum_const_zero
  raw := rfl
  held := rfl
  fresh := Nat.le_refl _
  readings := fun second hin => by cases hin
  rate := fun _ => ⟨fun _ => rfl, fun word hword => by rw [h.rateLimitState] at hword; cases hword⟩
  kept := fun _ => rfl

/-- Programs that keep the ledger keep it together. -/
theorem KernelRun.sound (hrun : KernelRun programs cookie s.idle c) (hs : Attached cookie plan s)
    (hprograms : ∀ program ∈ programs, ∀ x, (program cookie x).Keeps (Ledger plan cookie drops)
      (fun _ l => l ∈ settled) (Share.rawHit + Share.chance)) :
    c.Sound (Ledger plan cookie drops) fun _ l => l ∈ settled := by
  refine Run.sound ⟨fun hm h => h.moves hm, ?_⟩ hrun (System.sound_of_idle hs.ledger)
  rintro e p ⟨rfl, program, hin, x, rfl⟩
  exact ⟨_, hprograms program hin x, fun s t r h => h.entered⟩

end

/-! ### The limits -/

/-- Reservations that stand stay within the hit limit, tokens within the bucket. -/
structure WithinLimits (plan : Plan) (t : List Event) : Prop where
  hits : granted t ≤ released t + plan.hitLimit
  rate : ∀ a b, a ≤ b → takesIn a b (takes t) ≤ plan.burst + plan.refillPerSecond * (b - a)

theorem Ledger.withinLimits {s : Kernel cpus} {t : List Event} (h : Ledger plan cookie drops s t l)
    (hcountable : Countable t) (htimely : Timely t) : WithinLimits plan t := by
  refine ⟨h.limit hcountable, fun a b hab => ?_⟩
  cases hword : s.rateLimitState.lookup cookie with
  | none =>
    rw [(h.rate htimely).absent hword]
    exact Nat.zero_le _
  | some word =>
    obtain ⟨-, bucket₀, htokens, htakes⟩ := (h.rate htimely).present word hword
    exact htakes.within htokens hab

/-- In every run in which the captures never come to the end of their width and
tokens are taken in the second that was read, the limits are kept. -/
theorem run_withinLimits {s : Kernel cpus} {c : KernelSystem cpus} (hs : Attached cookie plan s)
    (hrun : KernelRun [liveprobeCount, liveprobeSnapshot] cookie s.idle c)
    (hcountable : Countable c.trace) (htimely : Timely c.trace) : WithinLimits plan c.trace := by
  have hsound : c.Sound (Ledger plan cookie True) fun _ l => l ∈ settled :=
    hrun.sound hs fun program hin x => by
      rcases List.mem_pair.1 hin with rfl | rfl
      · exact liveprobeCount_keeps
      · exact liveprobeSnapshot_keeps trivial
  obtain ⟨shares, -, hledger⟩ := hsound
  exact hledger.withinLimits hcountable htimely

/-! ### A run -/

/-- A plan with the limits that the agent asks for. -/
def samplePlan : Plan where
  pid := 7
  generation := 3
  hitLimit := 100
  refillPerSecond := 10
  burst := 10
  hitLimit_lt := by decide
  refillPerSecond_lt := by decide
  burst_lt := by decide

def sampleKernel (cpus : ℕ) : Kernel cpus where
  probePlans := AList.singleton 5 samplePlan
  probeState := AList.singleton 5 { generation := 3 }
  counters := fun _ => ∅
  rateLimitState := ∅
  room := 100
  events := []
  ktime := 0

theorem sampleKernel_attached (cpus : ℕ) : Attached 5 samplePlan (sampleKernel cpus) where
  probePlans := rfl
  probeState := rfl
  counters := fun _ => rfl
  rateLimitState := rfl

def sampleContext (cpu : Fin cpus) : Context cpus where
  cpu := cpu
  pid := 7
  cgroup := 0
  regs := fun _ => 0
  memory := fun _ => none

/-- Eleven executions have begun, and the first has come to the swap of its word. -/
def swapping : KernelSystem 1 :=
  (List.replicate 12 0).foldl (fun c i => c.advance i)
    { (sampleKernel 1).idle with
      trace := List.replicate 11 .entered
      programs := List.replicate 11 (liveprobeSnapshot 5 (sampleContext 0)) }

/-- A second later. -/
def delayed : KernelSystem 1 := { swapping with shared := { swapping.shared with ktime := 1000000000 } }

/-- All of them have come to their end, one after another. -/
def exceeded : KernelSystem 1 :=
  ((List.range 11).flatMap (List.replicate 25)).foldl (fun c i => c.advance i) delayed

theorem swapping_reached :
    KernelRun [liveprobeCount, liveprobeSnapshot] 5 (sampleKernel 1).idle swapping :=
  (Run.starts ⟨rfl, liveprobeSnapshot, by simp, sampleContext 0, rfl⟩ (sampleKernel 1).idle 11).trans
    (Run.schedule _ _)

theorem run_withinLimits_swapping :
    WithinLimits samplePlan ((List.replicate 25 0).foldl (fun c i => c.advance i) swapping).trace :=
  run_withinLimits (sampleKernel_attached 1) (swapping_reached.trans (Run.schedule _ _))
    (by decide) (by decide)

set_option maxRecDepth 4000 in
/-- The token that is swapped a second late is one too many for that second. -/
theorem burst_exceeded :
    ∃ c, KernelRun [liveprobeCount, liveprobeSnapshot] 5 (sampleKernel 1).idle c ∧
      Attached 5 samplePlan (sampleKernel 1) ∧ ¬ WithinLimits samplePlan c.trace := by
  refine ⟨exceeded, ?_, sampleKernel_attached 1, fun h => ?_⟩
  · refine (swapping_reached.tail (.environment ?_)).trans (Run.schedule _ _)
    exact ⟨by decide, rfl, rfl, fun _ => rfl, rfl⟩
  · have htakes : takesIn 1 1 (takes exceeded.trace) = 11 := by decide
    have hrate := h.rate 1 1 (Nat.le_refl 1)
    rw [htakes] at hrate
    exact absurd hrate (by decide)

end Bpf
