/-
LiveProbe/KernelCounters.lean

The counters of a probe that only counts, and what the agent makes of them.

Two executions that both miss the element of a counter both try to create it,
and the one that comes second is not counted (`increment_lost`).  That is all
that can go wrong: once all executions have ended the counters are short by the
increments that were lost, and the deltas that the agent hands to the broker
add up to what the counter holds (`countersExact_iff`).
-/
import LiveProbe.KernelLimits
import LiveProbe.HitLimit

namespace Bpf

open Interleaving NativeAgent

variable {cpus : ℕ} {plan : Plan} {cookie : Cookie} {s : Kernel cpus} {c c' : KernelSystem cpus}
  {active : ActiveSite} {o : Observed}

/-! ### The agent's readings -/

/-- The captures that `BpfManager::counters` answers. -/
def captures (cookie : Cookie) (c : KernelSystem cpus) : ℕ := (c.shared.readCounters cookie).2.1.toNat

/-- The agent's side of a counter while its site is attached: executions run, the
agent does other things, and from time to time it reads the counters. -/
inductive Reported (plan : Plan) (cookie : Cookie) (s : Kernel cpus) :
    KernelSystem cpus → ActiveSite → Observed → Prop
  | attach {active : ActiveSite} {o : Observed} (hkind : active.site.probe.kind = "counter")
      (hlimit : active.site.probe.hitLimit = plan.hitLimit) (hlast : active.lastCaptures = 0)
      (haccepted : o.accepted active.logical.key = 0) (htotal : o.world.total active.logical = 0) :
      Reported plan cookie s s.idle active o
  | run {c c' : KernelSystem cpus} {active : ActiveSite} {o : Observed} (h : Reported plan cookie s c active o)
      (hrun : KernelRun [liveprobeCount] cookie c c') : Reported plan cookie s c' active o
  | other {c : KernelSystem cpus} {active : ActiveSite} {o o' : Observed} (h : Reported plan cookie s c active o)
      (haccepted : o'.accepted active.logical.key = o.accepted active.logical.key)
      (htotal : o'.world.total active.logical = o.world.total active.logical) :
      Reported plan cookie s c active o'
  | read {c : KernelSystem cpus} {active : ActiveSite} {o : Observed} (h : Reported plan cookie s c active o) :
      Reported plan cookie s c { active with lastCaptures := captures cookie c }
        (o.countCaptures active (captures cookie c))

theorem Reported.reached (h : Reported plan cookie s c active o) :
    KernelRun [liveprobeCount] cookie s.idle c := by
  induction h with
  | attach => exact .refl
  | run _ hrun ih => exact ih.trans hrun
  | other _ _ _ ih => exact ih
  | read _ ih => exact ih

/-- What has been reported so far, and what the next reading reports. -/
structure Delivered (plan : Plan) (active : ActiveSite) (o : Observed) (t : List Event) : Prop where
  kind : active.site.probe.kind = "counter"
  limit : active.site.probe.hitLimit = plan.hitLimit
  accepted : o.accepted active.logical.key = active.lastCaptures
  total : o.world.total active.logical = active.lastCaptures
  last : active.lastCaptures ≤ stored .captureCounters t

/-- A reading hands out what was captured since the last one. -/
theorem Delivered.countCaptures {t : List Event} {n : ℕ} (h : Delivered plan active o t)
    (hlast : active.lastCaptures ≤ n) (hlimit : n ≤ plan.hitLimit) :
    (o.countCaptures active n).accepted active.logical.key = n ∧
      (o.countCaptures active n).world.total active.logical = n := by
  have haccepted := h.accepted
  have htotal := h.total
  unfold Observed.countCaptures
  split
  · rename_i hnew
    have hpos := hnew.2
    dsimp only
    rw [ActiveSite.logicalKey_eq, haccepted, h.limit, Nat.min_eq_left (by omega),
      if_pos (show 0 < n - active.lastCaptures by omega), show active.lastCaptures + (n - active.lastCaptures) = n by omega]
    have hsent : ((o.send active (n - active.lastCaptures)).setAccepted active.logical.key n).world.total
        active.logical = n := by
      show (o.send active _).world.total active.logical = n
      rw [Observed.total_send, if_pos rfl, htotal]
      omega
    split <;> exact ⟨Observed.accepted_setAccepted _ _, hsent⟩
  · rename_i hold
    rw [Nat.le_antisymm (Nat.le_of_not_lt fun hlt => hold ⟨h.kind, hlt⟩) hlast]
    exact ⟨haccepted, htotal⟩

/-! ### Books of a counter -/

/-- The ledger of a cookie whose executions only count. -/
theorem Reported.ledger (hs : Attached cookie plan s) (h : Reported plan cookie s c active o) :
    c.Sound (Ledger plan cookie False) fun _ l => l ∈ settled :=
  h.reached.sound hs fun _ hin x => by
    rw [List.mem_singleton.1 hin]
    exact liveprobeCount_keeps

/-- What a counter says while fewer than `2 ^ 64` executions began. -/
theorem Reported.captures_eq (hs : Attached cookie plan s) (h : Reported plan cookie s c active o)
    (hlt : executions c.trace < 2 ^ 64) :
    captures cookie c = stored .captureCounters c.trace ∧
      stored .captureCounters c.trace ≤ plan.hitLimit := by
  obtain ⟨shares, -, hledger⟩ := h.ledger hs
  have hheld := hledger.held
  have hfresh := hledger.fresh
  have hlimit := hledger.limit (hledger.countable hlt)
  rw [hledger.kept id] at hheld hlimit
  refine ⟨?_, by omega⟩
  show (c.shared.total cookie .captureCounters).toNat = _
  rw [hledger.counter]
  exact UInt64.toNat_ofNat_of_lt' (show _ < 2 ^ 64 by omega)

theorem executions_le_of_run (hrun : KernelRun [liveprobeCount] cookie c c') :
    executions c.trace ≤ executions c'.trace :=
  hrun.trace_prefix.sublist.count_le _

theorem Reported.delivered (hs : Attached cookie plan s) (h : Reported plan cookie s c active o)
    (hlt : executions c.trace < 2 ^ 64) : Delivered plan active o c.trace := by
  induction h with
  | attach hkind hlimit hlast haccepted htotal =>
    exact ⟨hkind, hlimit, haccepted.trans hlast.symm, htotal.trans hlast.symm, by rw [hlast]; exact Nat.zero_le _⟩
  | run _ hrun ih =>
    have hd := ih ((executions_le_of_run hrun).trans_lt hlt)
    exact { hd with last := hd.last.trans (hrun.trace_prefix.sublist.count_le _) }
  | other _ haccepted htotal ih =>
    have hd := ih hlt
    exact { hd with accepted := haccepted.trans hd.accepted, total := htotal.trans hd.total }
  | read h ih =>
    have hd := ih hlt
    obtain ⟨hcaptures, hlimit⟩ := h.captures_eq hs hlt
    rw [← hcaptures] at hlimit
    obtain ⟨haccepted, htotal⟩ := hd.countCaptures (hcaptures ▸ hd.last) hlimit
    exact ⟨hd.kind, hd.limit, haccepted, htotal, hcaptures.le⟩

/-! ### Exactness -/

/-- At rest, the counters hold the executions and the reservations that were had,
and with the next reading as many captures are reported. -/
structure CountersExact (cookie : Cookie) (c : KernelSystem cpus) (active : ActiveSite) (o : Observed) :
    Prop where
  raw : (c.shared.readCounters cookie).1.toNat = executions c.trace
  captured : captures cookie c = granted c.trace
  reported : (o.countCaptures active (captures cookie c)).world.total active.logical = granted c.trace

/-- The counters are exact where no increment was lost, and only there. -/
theorem countersExact_iff (hs : Attached cookie plan s) (h : Reported plan cookie s c active o)
    (hq : c.Quiescent) (hlt : executions c.trace < 2 ^ 64) :
    CountersExact cookie c active o ↔
      lost .rawHitCounters c.trace = 0 ∧ lost .captureCounters c.trace = 0 := by
  obtain ⟨l, ⟨hraw, hheld⟩, hledger⟩ := (h.ledger hs).quiescent hq settled fun _ _ hl => hl
  have hexecutions := hledger.raw
  have hgranted := hledger.held
  rw [hraw] at hexecutions
  rw [hheld, hledger.kept id] at hgranted
  have hstored : (c.shared.readCounters cookie).1.toNat = stored .rawHitCounters c.trace := by
    show (c.shared.total cookie .rawHitCounters).toNat = _
    rw [hledger.counter]
    exact UInt64.toNat_ofNat_of_lt' (show _ < 2 ^ 64 by omega)
  obtain ⟨hcaptures, hlimit⟩ := h.captures_eq hs hlt
  have hd := h.delivered hs hlt
  rw [← hcaptures] at hlimit
  have htotal := (hd.countCaptures (hcaptures ▸ hd.last) hlimit).2
  constructor
  · rintro ⟨hr, hc, -⟩
    omega
  · rintro ⟨hr, hc⟩
    exact ⟨by omega, by omega, by omega⟩

/-! ### Two executions -/

/-- A counter that is attached, before its first reading. -/
def counterSite : ActiveSite where
  site := {
    probe := { shopCounter with hitLimit := 100 }
    siteId := "p1:1:shop-7-1:b1:0"
    cookie := 5
    generation := 3
    operations := []
    slotPaths := []
    slotKinds := []
    unavailable := [] }
  target := shopInstance
  lastCaptures := 0
  failures := 0

def freshAgent : Observed where
  world := .start ⟨1, 1⟩

/-- Executions on two CPUs take their steps in this order. -/
def twoExecutions (order : List ℕ) : KernelSystem 2 :=
  order.foldl (fun c i => c.advance i)
    { (sampleKernel 2).idle with
      trace := [.entered, .entered]
      programs := [liveprobeCount 5 (sampleContext 0), liveprobeCount 5 (sampleContext 1)] }

theorem twoExecutions_reached (order : List ℕ) :
    KernelRun [liveprobeCount] 5 (sampleKernel 2).idle (twoExecutions order) := by
  have hbegins : ∀ cpu : Fin 2, Begins [liveprobeCount] 5 .entered (liveprobeCount 5 (sampleContext cpu)) :=
    fun cpu => ⟨rfl, liveprobeCount, List.mem_singleton.2 rfl, sampleContext cpu, rfl⟩
  exact ((Relation.ReflTransGen.single (.start (hbegins 0))).tail (.start (hbegins 1))).trans (Run.schedule _ _)

theorem twoExecutions_reported (order : List ℕ) :
    Reported samplePlan 5 (sampleKernel 2) (twoExecutions order) counterSite freshAgent :=
  (Reported.attach rfl rfl rfl rfl rfl).run (twoExecutions_reached order)

/-- One after the other, they are counted. -/
theorem countersExact_sequential :
    CountersExact 5 (twoExecutions (List.replicate 20 0 ++ List.replicate 20 1)) counterSite freshAgent :=
  (countersExact_iff (sampleKernel_attached 2) (twoExecutions_reported _) (by decide)
    (by decide)).2 (by decide)

/-- When both look the element up before one of them creates it, one is lost. -/
theorem increment_lost :
    ∃ c : KernelSystem 2, Attached 5 samplePlan (sampleKernel 2) ∧
      Reported samplePlan 5 (sampleKernel 2) c counterSite freshAgent ∧ c.Quiescent ∧
      ¬ CountersExact 5 c counterSite freshAgent := by
  refine ⟨twoExecutions ([0, 0, 1, 1] ++ List.replicate 20 0 ++ List.replicate 20 1),
    sampleKernel_attached 2, twoExecutions_reported _, by decide, fun h => ?_⟩
  have hraw : ((twoExecutions ([0, 0, 1, 1] ++ List.replicate 20 0 ++ List.replicate 20 1)).shared.readCounters
      5).1.toNat = 1 := by decide
  exact absurd (hraw.symm.trans h.raw) (by decide)

end Bpf
