/-
LiveProbe/Kernel.lean

The programs that run in the kernel at a probed address, as programs of atomic
steps: every call of a map helper, every atomic instruction, every reading of
the clock and every load of the rate word is one step.

What a program leaves to be seen is what its limits are about: that it began,
that an increment was stored or lost, that a hit was reserved or given back,
and that a token was taken.
-/
import LiveProbe.Capture
import LiveProbe.Interleaving
import Mathlib.Data.List.AList
import Mathlib.Data.UInt
import Mathlib.Algebra.BigOperators.Fin

namespace Bpf

open NativeAgent (CapturePlan PtRegs RawEvent ABI_VERSION)
open Bytes (Memory)
open Interleaving

abbrev Cookie := UInt64

/-- `max_entries` of the hash maps. -/
def MAX_ENTRIES : ℕ := 4096

/-! ### Maps -/

/-- The entries of a hash map. -/
abbrev Table (ν : Type) := AList fun _ : Cookie => ν

namespace Table
variable {ν : Type} {cookie : Cookie} {f : ν → ν}

/-- Writing through the pointer that a lookup gave. -/
def modify (cookie : Cookie) (f : ν → ν) (table : Table ν) : Table ν :=
  match table.lookup cookie with
  | some value => table.insert cookie (f value)
  | none => table

/-- `bpf_map_update_elem` with `BPF_NOEXIST`. -/
def insertNew (cookie : Cookie) (value : ν) (table : Table ν) : Option (Table ν) :=
  if (table.lookup cookie).isSome ∨ MAX_ENTRIES ≤ table.entries.length then none
  else some (table.insert cookie value)

@[simp] theorem lookup_modify (table : Table ν) :
    (table.modify cookie f).lookup cookie = (table.lookup cookie).map f := by
  unfold modify
  split <;> rename_i h
  · rw [AList.lookup_insert, h, Option.map_some]
  · rw [h, Option.map_none]

theorem insertNew_eq_some {table table' : Table ν} {value : ν} (h : table.insertNew cookie value = some table') :
    table.lookup cookie = none ∧ table'.lookup cookie = some value := by
  unfold insertNew at h
  simp only [Option.ite_none_left_eq_some, not_or, Option.some.injEq] at h
  obtain ⟨⟨habsent, -⟩, rfl⟩ := h
  exact ⟨Option.not_isSome_iff_eq_none.1 habsent, AList.lookup_insert table⟩

end Table

/-- The plan of a cookie; its fields have the widths of the record. -/
structure Plan extends CapturePlan where
  hitLimit_lt : hitLimit < 2 ^ 64
  refillPerSecond_lt : refillPerSecond < 2 ^ 32
  burst_lt : burst < 2 ^ 32

structure ProbeState where
  generation : UInt32
  disabled : Bool := false
  captures : UInt64 := 0
  acceptedRawHits : UInt64 := 0
  deriving DecidableEq, Repr

/-- The maps that count. -/
inductive CounterMap where
  | rawHitCounters | captureCounters | droppedEventCounters | counterAggregates
  deriving DecidableEq, Repr

/-- The value of an entry on every CPU. -/
abbrev PerCpu (cpus : ℕ) := Fin cpus → UInt64

structure Kernel (cpus : ℕ) where
  probePlans : Table Plan
  probeState : Table ProbeState
  counters : CounterMap → Table (PerCpu cpus)
  /-- The second in the upper half of the word, the tokens in the lower. -/
  rateLimitState : Table UInt64
  /-- The records that the ring buffer still has room for, and those submitted. -/
  room : ℕ
  events : List RawEvent
  /-- `bpf_ktime_get_ns`. -/
  ktime : UInt64

/-- `bpf_ktime_get_ns() / 1000000000ULL`. -/
def Kernel.second {cpus : ℕ} (s : Kernel cpus) : UInt64 := s.ktime / 1000000000

/-! ### What a step replaces -/

namespace Kernel

section
variable {cpus : ℕ} (s : Kernel cpus) (cookie cookie' : Cookie) {map map' : CounterMap}

def setCounters (map : CounterMap) (table : Table (PerCpu cpus)) : Kernel cpus :=
  { s with counters := Function.update s.counters map table }

def modifyState (f : ProbeState → ProbeState) : Kernel cpus :=
  { s with probeState := s.probeState.modify cookie f }

def setRate (table : Table UInt64) : Kernel cpus := { s with rateLimitState := table }

/-- The captures of the state a pointer leads to. -/
def captures : UInt64 := ((s.probeState.lookup cookie).map ProbeState.captures).getD 0

/-- The sum over the CPUs; a map without the element counts nothing. -/
def total (map : CounterMap) : UInt64 := ∑ cpu, (((s.counters map).lookup cookie).getD 0) cpu

variable (table : Table (PerCpu cpus)) (f : ProbeState → ProbeState) (words : Table UInt64)

@[simp] theorem setCounters_probeState : (s.setCounters map table).probeState = s.probeState := rfl
@[simp] theorem setCounters_second : (s.setCounters map table).second = s.second := rfl
@[simp] theorem setCounters_counters : (s.setCounters map table).counters map = table :=
  Function.update_self _ _ _

theorem setCounters_counters_of_ne (h : map' ≠ map) :
    (s.setCounters map table).counters map' = s.counters map' :=
  Function.update_of_ne h _ _

@[simp] theorem setCounters_self : s.setCounters map (s.counters map) = s := by
  rw [setCounters, Function.update_eq_self]

@[simp] theorem modifyState_total : (s.modifyState cookie f).total cookie' map = s.total cookie' map := rfl
@[simp] theorem modifyState_second : (s.modifyState cookie f).second = s.second := rfl
@[simp] theorem modifyState_lookup :
    (s.modifyState cookie f).probeState.lookup cookie = (s.probeState.lookup cookie).map f :=
  Table.lookup_modify _

@[simp] theorem setRate_probeState : (s.setRate words).probeState = s.probeState := rfl
@[simp] theorem setRate_total : (s.setRate words).total cookie map = s.total cookie map := rfl
@[simp] theorem setRate_rateLimitState : (s.setRate words).rateLimitState = words := rfl
@[simp] theorem setRate_second : (s.setRate words).second = s.second := rfl

end

end Kernel

/-! ### Steps -/

inductive Event where
  | entered
  | counted (map : CounterMap) (stored : Bool)
  | reserved (previous : UInt64) (granted : Bool)
  | released
  | seeded (second : UInt64)
  /-- A token was taken by an execution that read the clock as `now`. -/
  | taken (now clock : UInt64)
  deriving DecidableEq, Repr

/-- What an execution finds when it is entered. -/
structure Context (cpus : ℕ) where
  cpu : Fin cpus
  pid : ℕ
  cgroup : ℕ
  regs : PtRegs
  memory : Memory

/-- Code of the programs. -/
abbrev Code (cpus : ℕ) (α : Type) := Program (Kernel cpus) Event α

variable {cpus : ℕ}

/-! ### Counters -/

/-- Whether the map has an element for the cookie. -/
def lookupCounter (map : CounterMap) (cookie : Cookie) : Code cpus Bool :=
  .read fun s => ((s.counters map).lookup cookie).isSome

/-- One more on one CPU. -/
def PerCpu.add (cpu : Fin cpus) (value : PerCpu cpus) : PerCpu cpus :=
  Function.update value cpu (value cpu + 1)

/-- `__sync_fetch_and_add` on the value of one CPU. -/
def addCounter (cpu : Fin cpus) (map : CounterMap) (cookie : Cookie) : Code cpus Unit :=
  .act (fun _ => ())
    (fun s => s.setCounters map ((s.counters map).modify cookie (PerCpu.add cpu)))
    (fun s => [.counted map ((s.counters map).lookup cookie).isSome])

/-- The element is created for all CPUs at once, with zero for the others;
another that is there already stays. -/
def insertCounter (cpu : Fin cpus) (map : CounterMap) (cookie : Cookie) : Code cpus Unit :=
  .act (fun _ => ())
    (fun s => match (s.counters map).insertNew cookie (PerCpu.add cpu 0) with
      | some table => s.setCounters map table
      | none => s)
    (fun s => [.counted map ((s.counters map).insertNew cookie (PerCpu.add cpu 0)).isSome])

def increment (cpu : Fin cpus) (map : CounterMap) (cookie : Cookie) : Code cpus Unit := do
  let value ← lookupCounter map cookie
  if value then addCounter cpu map cookie else insertCounter cpu map cookie

/-! ### Admission -/

def allowed (x : Context cpus) (plan : Option Plan) (cookie : Cookie) : Code cpus Bool :=
  match plan with
  | none => pure false
  | some plan =>
    if plan.abiVersion ≠ ABI_VERSION ∨ plan.pid ≠ x.pid then pure false
    else if plan.cgroupId ≠ 0 ∧ plan.cgroupId ≠ x.cgroup then pure false
    else .read fun s => match s.probeState.lookup cookie with
      | some state => !state.disabled && state.generation == plan.generation
      | none => true

def lookupState (cookie : Cookie) : Code cpus Bool :=
  .read fun s => (s.probeState.lookup cookie).isSome

def addCaptures (plan : Plan) (cookie : Cookie) : Code cpus UInt64 :=
  .act (fun s => s.captures cookie)
    (fun s => s.modifyState cookie fun state => { state with captures := state.captures + 1 })
    (fun s => [.reserved (s.captures cookie) (decide ((s.captures cookie).toNat < plan.hitLimit))])

/-- `__sync_fetch_and_sub` on the captures. -/
def subCaptures (cookie : Cookie) (seen : List Event) : Code cpus Unit :=
  .act (fun _ => ())
    (fun s => s.modifyState cookie fun state => { state with captures := state.captures - 1 })
    (fun _ => seen)

def reserveHit (plan : Plan) (cookie : Cookie) : Code cpus Bool := do
  let state ← lookupState cookie
  if state then
    let previous ← addCaptures plan cookie
    if plan.hitLimit ≤ previous.toNat then
      subCaptures cookie []
      pure false
    else pure true
  else pure false

/-- `__sync_fetch_and_add` on the accepted hits; the answer is the new sequence number. -/
def addAccepted (cookie : Cookie) : Code cpus UInt64 :=
  .act (fun s => ((s.probeState.lookup cookie).map ProbeState.acceptedRawHits).getD 0 + 1)
    (fun s => s.modifyState cookie fun state => { state with acceptedRawHits := state.acceptedRawHits + 1 })
    (fun _ => [])

def sampleHit (plan : Plan) (cookie : Cookie) : Code cpus Bool := do
  let state ← lookupState cookie
  if !state || plan.sampleEvery == 0 then pure false
  else
    let sequence ← addAccepted cookie
    pure (plan.sampleEvery == 1 || sequence.toNat % plan.sampleEvery == 0)

/-! ### Tokens -/

/-- The last second and the tokens as they are found in the second `nowSecond`. -/
def refilled (plan : Plan) (nowSecond previous : UInt64) : UInt64 × UInt64 :=
  let lastSecond := previous >>> 32
  let tokens := previous.toUInt32.toUInt64
  if lastSecond < nowSecond then
    let added := (nowSecond - lastSecond) * UInt64.ofNat plan.refillPerSecond
    let tokens := tokens + added
    (nowSecond, if UInt64.ofNat plan.burst < tokens then UInt64.ofNat plan.burst else tokens)
  else (lastSecond, tokens)

/-- The word after a token was taken in the second `nowSecond`, if there is one. -/
def nextWord (plan : Plan) (nowSecond previous : UInt64) : Option UInt64 :=
  let (lastSecond, tokens) := refilled plan nowSecond previous
  if tokens = 0 then none
  else some ((lastSecond <<< 32) ||| (tokens - 1).toUInt32.toUInt64)

/-- `__sync_val_compare_and_swap`, and whether it swapped. -/
def swapWord (cookie : Cookie) (nowSecond previous next : UInt64) : Code cpus Bool :=
  .act (fun s => s.rateLimitState.lookup cookie == some previous)
    (fun s => if s.rateLimitState.lookup cookie = some previous then
        s.setRate (s.rateLimitState.insert cookie next)
      else s)
    (fun s => if s.rateLimitState.lookup cookie = some previous then [.taken nowSecond s.second] else [])

/-- The loop of `consume_token`. -/
def attempts (plan : Plan) (cookie : Cookie) (nowSecond : UInt64) : ℕ → Code cpus Bool
  | 0 => pure false
  | n + 1 => do
    let previous ← .read fun s => (s.rateLimitState.lookup cookie).getD 0
    match nextWord plan nowSecond previous with
    | none => pure false
    | some next => do
      let swapped ← swapWord cookie nowSecond previous next
      if swapped then pure true else attempts plan cookie nowSecond n

def seedRate (plan : Plan) (cookie : Cookie) (second : UInt64) : Code cpus Unit :=
  let initial := (second <<< 32) ||| UInt64.ofNat plan.burst
  .act (fun _ => ())
    (fun s => match s.rateLimitState.insertNew cookie initial with
      | some table => s.setRate table
      | none => s)
    (fun s => if (s.rateLimitState.insertNew cookie initial).isSome then [.seeded second] else [])

def lookupRate (cookie : Cookie) : Code cpus Bool :=
  .read fun s => (s.rateLimitState.lookup cookie).isSome

def readSecond : Code cpus UInt64 := .read Kernel.second

def ensureRate (plan : Plan) (cookie : Cookie) : Code cpus Bool := do
  let rate ← lookupRate cookie
  if rate then pure true
  else
    let second ← readSecond
    seedRate plan cookie second
    lookupRate cookie

def consumeToken (plan : Plan) (cookie : Cookie) : Code cpus Bool := do
  let rate ← ensureRate plan cookie
  if rate then
    let nowSecond ← readSecond
    attempts plan cookie nowSecond 8
  else pure false

/-! ### The programs -/

def liveprobeCount (cookie : Cookie) (x : Context cpus) : Code cpus Unit := do
  let plan ← .read fun s => s.probePlans.lookup cookie
  increment x.cpu .rawHitCounters cookie
  let admitted ← allowed x plan cookie <&&> (plan.elim (pure false) fun plan => reserveHit plan cookie)
  if admitted then
    increment x.cpu .counterAggregates cookie
    increment x.cpu .captureCounters cookie
  else pure ()

/-- `bpf_ringbuf_reserve`. -/
def reserveRecord : Code cpus Bool :=
  .act (fun s => decide (0 < s.room)) (fun s => { s with room := s.room - 1 }) fun _ => []

/-- `bpf_ringbuf_submit`. -/
def submitRecord (event : RawEvent) : Code cpus Unit :=
  .act (fun _ => ()) (fun s => { s with events := s.events ++ [event] }) fun _ => []

/-- A record that does not fit gives its reservation back. -/
def dropRecord (cookie : Cookie) (x : Context cpus) : Code cpus Unit := do
  increment x.cpu .droppedEventCounters cookie
  let state ← lookupState cookie
  if state then subCaptures cookie [.released] else pure ()

def liveprobeSnapshot (cookie : Cookie) (x : Context cpus) : Code cpus Unit := do
  let plan ← .read fun s => s.probePlans.lookup cookie
  increment x.cpu .rawHitCounters cookie
  match plan with
  | none => pure ()
  | some plan =>
    let admitted ← allowed x (some plan) cookie <&&> sampleHit plan cookie <&&> consumeToken plan cookie
      <&&> reserveHit plan cookie
    if admitted then
      let room ← reserveRecord
      if room then
        increment x.cpu .captureCounters cookie
        submitRecord (NativeAgent.liveprobeSnapshot x.regs x.memory plan.toCapturePlan cookie.toNat)
      else dropRecord cookie x
    else pure ()

/-! ### Runs -/

/-- What goes on beside the executions for one cookie: the clock does not go
back, and the entries of the cookie are left alone. -/
structure Moves (cookie : Cookie) (s s' : Kernel cpus) : Prop where
  ktime : s.ktime ≤ s'.ktime
  probePlans : s'.probePlans.lookup cookie = s.probePlans.lookup cookie
  probeState : s'.probeState.lookup cookie = s.probeState.lookup cookie
  counters : ∀ map, (s'.counters map).lookup cookie = (s.counters map).lookup cookie
  rateLimitState : s'.rateLimitState.lookup cookie = s.rateLimitState.lookup cookie

/-- The executions of some programs begin when the address is reached. -/
def Begins (programs : List (Cookie → Context cpus → Code cpus Unit)) (cookie : Cookie) (e : Event)
    (p : Code cpus Unit) : Prop :=
  e = .entered ∧ ∃ program ∈ programs, ∃ x, p = program cookie x

/-- `BpfManager::attach`: the maps of a cookie whose earlier entries are cleaned up. -/
structure Attached (cookie : Cookie) (plan : Plan) (s : Kernel cpus) : Prop where
  probePlans : s.probePlans.lookup cookie = some plan
  probeState : s.probeState.lookup cookie = some { generation := plan.generation }
  counters : ∀ map, (s.counters map).lookup cookie = none
  rateLimitState : s.rateLimitState.lookup cookie = none

abbrev KernelSystem (cpus : ℕ) := System (Kernel cpus) Event Unit

/-- Nothing has run yet. -/
def Kernel.idle (s : Kernel cpus) : KernelSystem cpus := ⟨s, [], []⟩

abbrev KernelRun (programs : List (Cookie → Context cpus → Code cpus Unit)) (cookie : Cookie) :
    KernelSystem cpus → KernelSystem cpus → Prop :=
  Run (Moves cookie) (Begins programs cookie)

end Bpf
