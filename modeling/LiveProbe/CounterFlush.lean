/-
LiveProbe/CounterFlush.lean

What becomes of the hits that the Python agent counts: `_count_without_capture`,
`_drain_uncaptured_counters`, `_flush` and `_send_isolating` of `runtime.py`, with
the threads of the application counting in between.

The worker drains the map of the other threads under its lock, so that only the
worker has the aggregates.  A flush sends a snapshot of them in batches that are
a stack, and removes by its probe what is delivered or refused.  Nothing else
touches the aggregates meanwhile, so what is removed is what was sent
(`Snapshot`), and every hit is delivered, dropped or pending (`counted_eq`).
-/
import LiveProbe.IngestIsolation
import LiveProbe.Transition
import Mathlib.Algebra.BigOperators.Group.List.Basic

open Bisection IngestIsolation

variable {α μ : Type}

/-! ### Maps of amounts -/

section Amounts

variable {κ : Type} [DecidableEq κ]

/-- `dict.get(key, 0)` -/
def amount (m : JsMap κ ℕ) (k : κ) : ℕ := (m.get? k).getD 0

/-- `m[k] = m.get(k, 0) + n` -/
def addAmount (m : JsMap κ ℕ) (k : κ) (n : ℕ) : JsMap κ ℕ := m.set k (amount m k + n)

@[simp] theorem amount_empty (k : κ) : amount ∅ k = 0 := rfl

theorem amount_addAmount (m : JsMap κ ℕ) (k : κ) (n : ℕ) (k' : κ) :
    amount (addAmount m k n) k' = amount m k' + if k = k' then n else 0 := by
  rw [amount, addAmount, JsMap.get?_set]
  by_cases h : k' = k
  · rw [if_pos h, if_pos h.symm, h]
    rfl
  · rw [if_neg h, if_neg (Ne.symm h)]
    rfl

theorem amount_delete (m : JsMap κ ℕ) (k k' : κ) : amount (m.delete k) k' = if k' = k then 0 else amount m k' := by
  rw [amount, JsMap.get?_delete]
  split <;> rfl

theorem amount_of_mem {m : JsMap κ ℕ} {e : κ × ℕ} (he : e ∈ m.entries) : amount m e.1 = e.2 := by
  rw [amount, JsMap.get?_eq_some_iff.mpr he, Option.getD_some]

/-- The amounts of a key, together. -/
def totalFor (k : κ) (l : List (κ × ℕ)) : ℕ := (l.map fun e => if e.1 = k then e.2 else 0).sum

@[simp] theorem totalFor_nil (k : κ) : totalFor k [] = 0 := rfl

@[simp] theorem totalFor_cons (k : κ) (e : κ × ℕ) (l : List (κ × ℕ)) :
    totalFor k (e :: l) = (if e.1 = k then e.2 else 0) + totalFor k l := rfl

theorem totalFor_append (k : κ) (l l' : List (κ × ℕ)) : totalFor k (l ++ l') = totalFor k l + totalFor k l' := by
  rw [totalFor, List.map_append, List.sum_append]
  rfl

theorem amount_foldl_addAmount (l : List (κ × ℕ)) (m : JsMap κ ℕ) (k : κ) :
    amount (l.foldl (fun m e => addAmount m e.1 e.2) m) k = amount m k + totalFor k l := by
  induction l generalizing m with
  | nil => rfl
  | cons e l ih => rw [List.foldl_cons, ih, amount_addAmount, totalFor_cons, Nat.add_assoc]

/-- A list with the amounts of a map has each of them once. -/
theorem totalFor_eq {m : JsMap κ ℕ} {l : List (κ × ℕ)} (hl : ∀ e ∈ l, amount m e.1 = e.2)
    (hnodup : (l.map Prod.fst).Nodup) (k : κ) :
    totalFor k l = if k ∈ l.map Prod.fst then amount m k else 0 := by
  induction l with
  | nil => rfl
  | cons e l ih =>
    obtain ⟨hnot, htail⟩ := List.nodup_cons.mp hnodup
    rw [totalFor_cons, ih (fun e' he' => hl e' (List.mem_cons_of_mem e he')) htail]
    by_cases hkey : e.1 = k
    · subst hkey
      rw [if_pos rfl, if_neg hnot, if_pos (List.mem_map_of_mem List.mem_cons_self), hl e List.mem_cons_self,
        Nat.add_zero]
    · rw [if_neg hkey, Nat.zero_add]
      simp only [List.map_cons, List.mem_cons, Ne.symm hkey, false_or]

theorem totalFor_entries (m : JsMap κ ℕ) (k : κ) : totalFor k m.entries = amount m k := by
  rw [totalFor_eq (fun e he => amount_of_mem he) m.nodup]
  split
  · rfl
  · next hkey => rw [amount, JsMap.get?_eq_none_iff.mpr hkey, Option.getD_none]

end Amounts

namespace PythonAgent

/-! ### The worker -/

/-- The dictionary of an event, as far as its source goes. -/
inductive Payload (α μ : Type)
  | event (body : α)
  | counter (ts : PyString) (delta : ℕ)
  | metric (ts : PyString) (aggregate : μ)

/-- What a flush sends: the event and where it was taken from. -/
abbrev Selected (α μ : Type) := Source × EventObject (Payload α μ)

/-- What the worker is at: the drained map in its hands, or the batches of
`_send_isolating` that are still to be sent, and the splits left. -/
inductive Phase (α μ : Type)
  | idle
  | drained (drained : JsMap PyString ℕ)
  | sending (batches : List (List (Selected α μ))) (splits : ℤ)

/-- The counters of an agent; `counted`, `delivered` and `dropped` record what happened. -/
structure Counting (α μ : Type) where
  buffers : Buffers (Payload α μ) μ
  uncaptured : JsMap PyString ℕ := ∅
  phase : Phase α μ := .idle
  counted : List PyString := []
  delivered : List (Selected α μ) := []
  dropped : List (Selected α μ) := []

/-- What a flush is told by the clock, by the encoded sizes and by the bandwidth bucket. -/
structure FlushInput (α μ : Type) where
  timestamp : PyString
  /-- whether the aggregate has samples -/
  count : μ → ℕ
  /-- the length of the base payload -/
  baseSize : ℕ
  size : Selected α μ → ℕ
  capacity : ℕ
  /-- whether the encoded body is within the capacity, and the bucket grants it -/
  granted : List (Selected α μ) → Bool

inductive Step (α μ : Type)
  /-- an application thread counts a hit over budget -/
  | countWithoutCapture (probeId : PyString)
  /-- the worker commits a captured hit -/
  | commit (probeId : PyString)
  /-- whatever else the worker does to events and metrics between flushes -/
  | work (events : List (EventObject (Payload α μ))) (metricAggregates : JsMap PyString μ) (droppedHits : ℕ)
  /-- `_drain_uncaptured_counters`, up to the release of its lock -/
  | drain
  /-- `_flush`, up to its first request -/
  | flush (input : FlushInput α μ)
  /-- a request comes back -/
  | answer (answer : Answer)

/-- `_drain_uncaptured_counters`, once its lock is released. -/
def addDrained (aggregates drained : JsMap PyString ℕ) : JsMap PyString ℕ :=
  drained.entries.foldl (fun m e => addAmount m e.1 e.2) aggregates

namespace Buffers

/-- `_drop_oversized` -/
def dropOversized (s : Selected α μ) (self : Buffers (Payload α μ) μ) : Buffers (Payload α μ) μ :=
  match s.1 with
  | .event => { self with events := self.events.tail, droppedHits := self.droppedHits + 1 }
  | _ => { self.removeAggregate s with droppedHits := self.droppedHits + 1 }

end Buffers

/-- What the loop of `_flush` leaves: what is selected, what was dropped as oversized, and the buffers. -/
structure Selection (α μ : Type) where
  selected : List (Selected α μ)
  dropped : List (Selected α μ)
  buffers : Buffers (Payload α μ) μ

/-- The loop of `_flush`. -/
def select (input : FlushInput α μ) : List (Selected α μ) → List (Selected α μ) → ℕ → List (Selected α μ) →
    Buffers (Payload α μ) μ → Selection α μ
  | [], selected, _, dropped, self => ⟨selected, dropped, self⟩
  | s :: rest, selected, encodedSize, dropped, self =>
    let separatorSize := if selected.isEmpty then 0 else 1
    if input.capacity < encodedSize + separatorSize + input.size s then
      if !selected.isEmpty then ⟨selected, dropped, self⟩
      else select input rest selected encodedSize (dropped ++ [s]) (self.dropOversized s)
    else select input rest (selected ++ [s]) (encodedSize + separatorSize + input.size s) dropped self

/-- What is left to send; with nothing left `_flush` returns. -/
def resume (batches : List (List (Selected α μ))) (splits : ℤ) : Phase α μ :=
  if batches.isEmpty then .idle else .sending batches splits

namespace Counting

/-- The end of `_flush`, up to its first request. -/
def request (input : FlushInput α μ) (selection : Selection α μ) (s : Counting α μ) : Counting α μ :=
  { s with
    buffers := selection.buffers
    dropped := s.dropped ++ selection.dropped
    phase := if input.granted selection.selected then .sending [selection.selected] maxIngestSplits else .idle }

/-- `_flush`, up to its first request. -/
def flush (input : FlushInput α μ) (drained : JsMap PyString ℕ) (s : Counting α μ) : Counting α μ :=
  let self := { s.buffers with counterAggregates := addDrained s.buffers.counterAggregates drained }
  if input.capacity < input.baseSize then { s with buffers := self, phase := .idle }
  else
    let sources := self.sources input.count (fun _ delta => (0, .counter input.timestamp delta))
      fun _ aggregate => (0, .metric input.timestamp aggregate)
    s.request input (select input sources [] input.baseSize [] self)

/-- `_send_isolating`, from the answer to a batch to the next request. -/
def answered (selected : List (Selected α μ)) (batches : List (List (Selected α μ))) (splits : ℤ) (s : Counting α μ) :
    Answer → Counting α μ
  | .delivered =>
    { s with
      buffers := s.buffers.removeSelectedEvents selected
      delivered := s.delivered ++ selected
      phase := resume batches splits }
  | .failed => { s with phase := resume batches splits }
  | .status code =>
    if code ≠ 400 then { s with phase := resume batches splits }
    else if selected.length ≤ 1 ∨ splits ≤ 0 then
      { s with
        buffers := { s.buffers.removeSelectedEvents selected with
          droppedHits := s.buffers.droppedHits + selected.length }
        dropped := s.dropped ++ selected
        phase := resume batches splits }
    else
      let middle := (selected.length + 1) / 2
      { s with phase := .sending (selected.take middle :: selected.drop middle :: batches) (splits - 1) }

def next (s : Counting α μ) : Step α μ → Counting α μ
  | .countWithoutCapture probeId =>
    { s with uncaptured := addAmount s.uncaptured probeId 1, counted := s.counted ++ [probeId] }
  | .commit probeId =>
    match s.phase with
    | .idle =>
      { s with
        buffers := { s.buffers with counterAggregates := addAmount s.buffers.counterAggregates probeId 1 }
        counted := s.counted ++ [probeId] }
    | _ => s
  | .work events metricAggregates droppedHits =>
    match s.phase with
    | .idle =>
      { s with
        buffers := { s.buffers with
          events := events
          metricAggregates := metricAggregates
          droppedHits := droppedHits } }
    | _ => s
  | .drain =>
    match s.phase with
    | .idle => { s with uncaptured := ∅, phase := .drained s.uncaptured }
    | _ => s
  | .flush input =>
    match s.phase with
    | .drained drained => s.flush input drained
    | _ => s
  | .answer answer =>
    match s.phase with
    | .sending (selected :: batches) splits => s.answered selected batches splits answer
    | _ => s

def start : Counting α μ where
  buffers := { events := [], counterAggregates := ∅, metricAggregates := ∅ }

/-- The drained hits that are in the hands of the worker. -/
def drained (s : Counting α μ) : JsMap PyString ℕ :=
  match s.phase with
  | .drained drained => drained
  | _ => ∅

/-- What is left to send. -/
def unsent (s : Counting α μ) : List (Selected α μ) :=
  match s.phase with
  | .sending batches _ => batches.flatten
  | _ => []

end Counting

/-! ### Deltas -/

/-- The delta of a counter event. -/
def Payload.delta : Payload α μ → ℕ
  | .counter _ delta => delta
  | _ => 0

/-- The probes and the deltas of the counter events. -/
def counterDeltas (l : List (Selected α μ)) : List (PyString × ℕ) :=
  (l.filter fun s => s.1 = .counter).map fun s => (s.2.probeId, s.2.event.delta)

/-- The counter deltas of a probe. -/
def deltas (probeId : PyString) (l : List (Selected α μ)) : ℕ := totalFor probeId (counterDeltas l)

/-- The probes of the counter events. -/
def probes (l : List (Selected α μ)) : List PyString := (counterDeltas l).map Prod.fst

/-- The counter events hold the aggregates of their probes, each once. -/
structure Snapshot (m : JsMap PyString ℕ) (l : List (Selected α μ)) : Prop where
  current : ∀ e ∈ counterDeltas l, amount m e.1 = e.2
  distinct : (probes l).Nodup

section Deltas

variable {m m' : JsMap PyString ℕ} {l l₁ l₂ : List (Selected α μ)} {probeId : PyString}

theorem counterDeltas_append : counterDeltas (l₁ ++ l₂) = counterDeltas l₁ ++ counterDeltas l₂ := by
  rw [counterDeltas, List.filter_append, List.map_append]
  rfl

theorem deltas_append : deltas probeId (l₁ ++ l₂) = deltas probeId l₁ + deltas probeId l₂ := by
  rw [deltas, counterDeltas_append, totalFor_append]
  rfl

theorem Snapshot.append (h : Snapshot m (l₁ ++ l₂)) :
    Snapshot m l₁ ∧ Snapshot m l₂ ∧ ∀ k ∈ probes l₁, k ∉ probes l₂ := by
  obtain ⟨hcurrent, hdistinct⟩ := h
  rw [counterDeltas_append] at hcurrent
  rw [probes, counterDeltas_append, List.map_append, List.nodup_append] at hdistinct
  exact ⟨⟨fun e he => hcurrent e (List.mem_append_left _ he), hdistinct.1⟩,
    ⟨fun e he => hcurrent e (List.mem_append_right _ he), hdistinct.2.1⟩,
    fun k hk hk' => hdistinct.2.2 k hk k hk' rfl⟩

/-- What a list of removals does to the aggregates. -/
theorem amount_foldl_removeAggregate (l : List (Selected α μ)) (self : Buffers (Payload α μ) μ) :
    amount (l.foldl Buffers.removeAggregate self).counterAggregates probeId =
      if probeId ∈ probes l then 0 else amount self.counterAggregates probeId := by
  induction l generalizing self with
  | nil => rfl
  | cons s l ih =>
    rw [List.foldl_cons, ih]
    obtain ⟨source, e⟩ := s
    cases source with
    | counter =>
      have hprobes : probes ((.counter, e) :: l : List (Selected α μ)) = e.probeId :: probes l := rfl
      rw [hprobes, Buffers.removeAggregate, amount_delete]
      by_cases hprobe : probeId = e.probeId
      · simp [hprobe]
      · simp [hprobe]
    | event => rfl
    | metric => rfl

theorem amount_removeSelectedEvents (l : List (Selected α μ)) (self : Buffers (Payload α μ) μ) (probeId : PyString) :
    amount (self.removeSelectedEvents l).counterAggregates probeId =
      if probeId ∈ probes l then 0 else amount self.counterAggregates probeId :=
  amount_foldl_removeAggregate l _

/-- What is removed is what was sent. -/
theorem Snapshot.removed (h : Snapshot m l) (hm : ∀ k, amount m' k = if k ∈ probes l then 0 else amount m k)
    (probeId : PyString) : amount m' probeId + deltas probeId l = amount m probeId := by
  rw [hm, deltas, totalFor_eq h.current h.distinct]
  by_cases hk : probeId ∈ (counterDeltas l).map Prod.fst
  · rw [if_pos hk, if_pos (show probeId ∈ probes l from hk), Nat.zero_add]
  · rw [if_neg hk, if_neg (show probeId ∉ probes l from hk), Nat.add_zero]

/-- The other events still hold the aggregates. -/
theorem Snapshot.kept (h : Snapshot m (l₁ ++ l₂))
    (hm : ∀ k, amount m' k = if k ∈ probes l₁ then 0 else amount m k) : Snapshot m' l₂ := by
  obtain ⟨-, hrest, hapart⟩ := h.append
  refine ⟨fun e he => ?_, hrest.distinct⟩
  rw [hm, if_neg fun hmem => hapart _ hmem (List.mem_map_of_mem he), hrest.current e he]

end Deltas

/-! ### The selection -/

theorem amount_dropOversized (s : Selected α μ) (self : Buffers (Payload α μ) μ) (probeId : PyString) :
    amount (self.dropOversized s).counterAggregates probeId =
      if probeId ∈ probes [s] then 0 else amount self.counterAggregates probeId := by
  rw [← amount_foldl_removeAggregate]
  obtain ⟨source, e⟩ := s
  cases source <;> rfl

/-- What is selected holds the aggregates that are left, and what left them was dropped. -/
theorem select_spec (input : FlushInput α μ) {sources : List (Selected α μ)} (selected : List (Selected α μ))
    (encodedSize : ℕ) (dropped : List (Selected α μ)) {self : Buffers (Payload α μ) μ}
    (h : Snapshot self.counterAggregates (selected ++ sources)) :
    Snapshot (select input sources selected encodedSize dropped self).buffers.counterAggregates
        (select input sources selected encodedSize dropped self).selected ∧
      ∀ probeId, amount (select input sources selected encodedSize dropped self).buffers.counterAggregates probeId +
        deltas probeId (select input sources selected encodedSize dropped self).dropped =
          amount self.counterAggregates probeId + deltas probeId dropped := by
  induction sources generalizing selected encodedSize dropped self with
  | nil => exact ⟨h.append.1, fun probeId => rfl⟩
  | cons s rest ih =>
    have hnext := ih (selected ++ [s]) (encodedSize + (if selected.isEmpty then 0 else 1) + input.size s) dropped
      (by rw [List.append_assoc]; exact h)
    rw [select]
    by_cases hsize : input.capacity < encodedSize + (if selected.isEmpty then 0 else 1) + input.size s
    · rw [if_pos hsize]
      cases selected with
      | cons e selected => exact ⟨h.append.1, fun probeId => rfl⟩
      | nil =>
        -- nothing is selected yet: the event can never be sent
        have hsplit : Snapshot self.counterAggregates ([s] ++ rest) := h
        obtain ⟨hrest, hbalance⟩ := ih [] encodedSize (dropped ++ [s])
          (hsplit.kept (amount_dropOversized s self))
        refine ⟨hrest, fun probeId => ?_⟩
        have hremoved := hsplit.append.1.removed (amount_dropOversized s self) probeId
        refine (hbalance probeId).trans ?_
        rw [deltas_append, ← hremoved]
        omega
    · rw [if_neg hsize]
      exact hnext

/-- The counter events of the sources are the aggregates. -/
theorem counterDeltas_sources (self : Buffers (Payload α μ) μ) (count : μ → ℕ) (ts : PyString) :
    counterDeltas (self.sources count (fun _ delta => (0, .counter ts delta)) fun _ aggregate => (0, .metric ts aggregate)) =
      self.counterAggregates.entries.filter fun e => 0 < e.2 := by
  rw [Buffers.sources, counterDeltas_append, counterDeltas_append]
  have hnone : ∀ (l : List (Selected α μ)), (∀ s ∈ l, s.1 ≠ .counter) → counterDeltas l = [] := by
    intro l hl
    rw [counterDeltas, List.filter_eq_nil_iff.mpr fun s hs => by rw [decide_eq_true_eq]; exact hl s hs]
    rfl
  have hevents : counterDeltas (self.events.map (Prod.mk .event) : List (Selected α μ)) = [] := by
    refine hnone _ fun s hs => ?_
    obtain ⟨e, -, rfl⟩ := List.mem_map.mp hs
    intro h
    cases h
  have hmetrics : ∀ (l : List (PyString × μ)), counterDeltas (l.map fun e =>
      ((.metric, { id := 0, probeId := e.1, event := .metric ts e.2 }) : Selected α μ)) = [] := by
    refine fun l => hnone _ fun s hs => ?_
    obtain ⟨e, -, rfl⟩ := List.mem_map.mp hs
    intro h
    cases h
  rw [hevents, hmetrics, List.append_nil, List.nil_append, counterDeltas, List.filter_eq_self.mpr, List.map_map]
  · exact List.map_id _
  · intro s hs
    obtain ⟨e, -, rfl⟩ := List.mem_map.mp hs
    rfl

theorem sources_snapshot (self : Buffers (Payload α μ) μ) (count : μ → ℕ) (ts : PyString) :
    Snapshot self.counterAggregates
      (self.sources count (fun _ delta => (0, .counter ts delta)) fun _ aggregate => (0, .metric ts aggregate)) := by
  constructor
  · rw [counterDeltas_sources]
    exact fun e he => amount_of_mem (List.mem_of_mem_filter he)
  · rw [probes, counterDeltas_sources]
    exact self.counterAggregates.nodup.sublist (List.filter_sublist.map Prod.fst)

theorem amount_addDrained (m drained : JsMap PyString ℕ) (probeId : PyString) :
    amount (addDrained m drained) probeId = amount m probeId + amount drained probeId := by
  rw [addDrained, amount_foldl_addAmount, totalFor_entries]

/-! ### Runs -/

/-- Every hit counted is delivered, dropped or pending, and what is left to send is a snapshot. -/
structure Conserved (s : Counting α μ) : Prop where
  balance : ∀ probeId, s.counted.count probeId =
    deltas probeId s.delivered + (amount s.buffers.counterAggregates probeId + amount s.uncaptured probeId +
      amount s.drained probeId) + deltas probeId s.dropped
  snapshot : Snapshot s.buffers.counterAggregates s.unsent

namespace Conserved

variable {s : Counting α μ}

theorem snapshot_nil (m : JsMap PyString ℕ) : Snapshot m ([] : List (Selected α μ)) :=
  ⟨List.forall_mem_nil _, List.nodup_nil⟩

theorem start : Conserved (Counting.start : Counting α μ) := ⟨fun _ => rfl, snapshot_nil _⟩

section Phases

variable {batches : List (List (Selected α μ))} {splits : ℤ} {drained : JsMap PyString ℕ}

theorem unsent_of_resume (hphase : s.phase = resume batches splits) : s.unsent = batches.flatten := by
  rw [Counting.unsent, hphase]
  cases batches <;> rfl

theorem drained_of_resume (hphase : s.phase = resume batches splits) : s.drained = ∅ := by
  rw [Counting.drained, hphase]
  cases batches <;> rfl

theorem unsent_of_sending (hphase : s.phase = .sending batches splits) : s.unsent = batches.flatten := by
  rw [Counting.unsent, hphase]

theorem drained_of_sending (hphase : s.phase = .sending batches splits) : s.drained = ∅ := by
  rw [Counting.drained, hphase]

theorem drained_of_drained (hphase : s.phase = .drained drained) : s.drained = drained := by
  rw [Counting.drained, hphase]

theorem drained_of_idle (hphase : s.phase = .idle) : s.drained = ∅ := by
  rw [Counting.drained, hphase]

theorem unsent_of_idle (hphase : s.phase = .idle) : s.unsent = [] := by
  rw [Counting.unsent, hphase]

end Phases

theorem count_append_singleton (l : List PyString) (k k' : PyString) :
    (l ++ [k]).count k' = l.count k' + if k = k' then 1 else 0 := by
  rw [List.count_append, List.count_singleton]
  simp only [beq_iff_eq]

/-- The worker hands the hits on: from the aggregates and what it has drained, to the aggregates and what it
has delivered and dropped. -/
theorem of_worker {s' : Counting α μ} (h : Conserved s) (hcounted : s'.counted = s.counted)
    (huncaptured : s'.uncaptured = s.uncaptured) (hsnapshot : Snapshot s'.buffers.counterAggregates s'.unsent)
    (hbalance : ∀ k, deltas k s'.delivered + amount s'.buffers.counterAggregates k + amount s'.drained k +
      deltas k s'.dropped = deltas k s.delivered + amount s.buffers.counterAggregates k + amount s.drained k +
        deltas k s.dropped) : Conserved s' := by
  refine ⟨fun k => ?_, hsnapshot⟩
  rw [hcounted, h.balance k, huncaptured]
  have hk := hbalance k
  omega

theorem request (h : Conserved s) (input : FlushInput α μ) {selection : Selection α μ}
    (hsnapshot : Snapshot selection.buffers.counterAggregates selection.selected)
    (hbalance : ∀ k, amount selection.buffers.counterAggregates k + deltas k selection.dropped =
      amount s.buffers.counterAggregates k + amount s.drained k) : Conserved (s.request input selection) := by
  have hphase : (s.request input selection).drained = ∅ ∧
      Snapshot selection.buffers.counterAggregates (s.request input selection).unsent := by
    by_cases hgranted : input.granted selection.selected = true
    · have hsending : (s.request input selection).phase = .sending [selection.selected] maxIngestSplits :=
        if_pos hgranted
      refine ⟨drained_of_sending hsending, ?_⟩
      rw [unsent_of_sending hsending, List.flatten_singleton]
      exact hsnapshot
    · have hidle : (s.request input selection).phase = .idle := if_neg hgranted
      refine ⟨drained_of_idle hidle, ?_⟩
      rw [unsent_of_idle hidle]
      exact snapshot_nil _
  refine h.of_worker rfl rfl hphase.2 fun k => ?_
  rw [hphase.1, amount_empty]
  show deltas k s.delivered + amount selection.buffers.counterAggregates k + 0 +
    deltas k (s.dropped ++ selection.dropped) = _
  rw [deltas_append]
  have hk := hbalance k
  omega

theorem flush (h : Conserved s) (input : FlushInput α μ) {drained : JsMap PyString ℕ}
    (hphase : s.phase = .drained drained) : Conserved (s.flush input drained) := by
  have hdrained := drained_of_drained hphase
  rw [Counting.flush]
  split
  · refine h.of_worker rfl rfl (snapshot_nil _) fun k => ?_
    show deltas k s.delivered + amount (addDrained s.buffers.counterAggregates drained) k + 0 + deltas k s.dropped = _
    rw [amount_addDrained, hdrained]
    omega
  · obtain ⟨hsnapshot, hselect⟩ := select_spec input [] input.baseSize []
      (sources_snapshot { s.buffers with counterAggregates := addDrained s.buffers.counterAggregates drained }
        input.count input.timestamp)
    refine h.request input hsnapshot fun k => (hselect k).trans ?_
    rw [hdrained]
    exact amount_addDrained _ _ k

theorem answered (h : Conserved s) {selected : List (Selected α μ)} {batches : List (List (Selected α μ))} {splits : ℤ}
    (hphase : s.phase = .sending (selected :: batches) splits) (answer : Answer) :
    Conserved (s.answered selected batches splits answer) := by
  have hdrained := drained_of_sending hphase
  have hunsent := h.snapshot
  rw [unsent_of_sending hphase, List.flatten_cons] at hunsent
  have hremoved := hunsent.append.1.removed (amount_removeSelectedEvents selected s.buffers)
  have hkept := hunsent.kept (amount_removeSelectedEvents selected s.buffers)
  have hdeferred : Conserved { s with phase := resume batches splits } := by
    refine h.of_worker rfl rfl ?_ fun k => ?_
    · rw [unsent_of_resume rfl]
      exact hunsent.append.2.1
    · rw [drained_of_resume rfl, hdrained]
  cases answer with
  | delivered =>
    refine h.of_worker rfl rfl ?_ fun k => ?_
    · rw [unsent_of_resume rfl]
      exact hkept
    · rw [drained_of_resume rfl, hdrained, amount_empty]
      show deltas k (s.delivered ++ selected) + amount (s.buffers.removeSelectedEvents selected).counterAggregates k +
        0 + deltas k s.dropped = _
      rw [deltas_append, ← hremoved k]
      omega
  | failed => exact hdeferred
  | status code =>
    rw [Counting.answered]
    split
    · exact hdeferred
    · split
      · refine h.of_worker rfl rfl ?_ fun k => ?_
        · rw [unsent_of_resume rfl]
          exact hkept
        · rw [drained_of_resume rfl, hdrained, amount_empty]
          show deltas k s.delivered + amount (s.buffers.removeSelectedEvents selected).counterAggregates k +
            0 + deltas k (s.dropped ++ selected) = _
          rw [deltas_append, ← hremoved k]
          omega
      · refine h.of_worker rfl rfl ?_ fun k => ?_
        · show Snapshot s.buffers.counterAggregates (List.flatten (_ :: _ :: batches))
          rw [List.flatten_cons, List.flatten_cons, ← List.append_assoc, List.take_append_drop]
          exact hunsent
        · rw [hdrained]
          rfl

theorem next (h : Conserved s) (step : Step α μ) : Conserved (s.next step) := by
  cases step with
  | countWithoutCapture probeId =>
    refine ⟨fun k => ?_, h.snapshot⟩
    show (s.counted ++ [probeId]).count k = deltas k s.delivered + (amount s.buffers.counterAggregates k +
      amount (addAmount s.uncaptured probeId 1) k + amount s.drained k) + deltas k s.dropped
    rw [count_append_singleton, h.balance k, amount_addAmount]
    omega
  | commit probeId =>
    rw [Counting.next]
    split
    · next hphase =>
      refine ⟨fun k => ?_, ?_⟩
      · show (s.counted ++ [probeId]).count k = deltas k s.delivered + (amount (addAmount s.buffers.counterAggregates
          probeId 1) k + amount s.uncaptured k + amount s.drained k) + deltas k s.dropped
        rw [count_append_singleton, h.balance k, amount_addAmount]
        omega
      · show Snapshot _ s.unsent
        rw [unsent_of_idle hphase]
        exact snapshot_nil _
    · exact h
  | work events metricAggregates droppedHits =>
    rw [Counting.next]
    split
    · next hphase => exact h.of_worker rfl rfl h.snapshot fun k => rfl
    · exact h
  | drain =>
    rw [Counting.next]
    split
    · next hphase =>
      refine ⟨fun k => ?_, snapshot_nil _⟩
      show s.counted.count k = deltas k s.delivered + (amount s.buffers.counterAggregates k + 0 + amount s.uncaptured k) +
        deltas k s.dropped
      rw [h.balance k, drained_of_idle hphase]
      rfl
    · exact h
  | flush input =>
    rw [Counting.next]
    split
    · next hphase => exact h.flush input hphase
    · exact h
  | answer answer =>
    rw [Counting.next]
    split
    · next hphase => exact h.answered hphase answer
    · exact h

theorem run (steps : List (Step α μ)) : Conserved (steps.foldl Counting.next Counting.start) := by
  have hsteps : AllOk Counting.next (fun _ _ => True) Counting.start steps :=
    AllOk.of_forall (fun _ _ _ => trivial) _
  exact AllOk.invariant (I := Conserved) (fun _ step h _ => Conserved.next h step) Conserved.start hsteps

end Conserved

/-- The batches come and go as the calls of `_send_isolating` do: the answers to a batch and its halves lead to where
the call returns. -/
theorem answers_sendIsolating (oracle : Oracle (Payload α μ) Answer) (selected : List (Selected α μ))
    (batches : List (List (Selected α μ))) (budget : Flush (Payload α μ) Answer) (s : Counting α μ)
    (hphase : s.phase = .sending (selected :: batches) budget.splits) :
    ∃ answers : List Answer,
      (answers.foldl (fun s answer => s.next (.answer answer)) s).buffers =
          (sendIsolating oracle selected budget s.buffers).1 ∧
        (answers.foldl (fun s answer => s.next (.answer answer)) s).phase =
          resume batches (sendIsolating oracle selected budget s.buffers).2.splits := by
  induction hlength : selected.length using Nat.strong_induction_on generalizing selected batches budget s with
  | h n ih =>
    have hnext : ∀ answer, s.next (.answer answer) = s.answered selected batches budget.splits answer := by
      intro answer
      rw [Counting.next, hphase]
    have hone : ∀ answer, [answer].foldl (fun s answer => s.next (.answer answer)) s =
        s.answered selected batches budget.splits answer := hnext
    rw [sendIsolating, Flush.send]
    rcases hanswer : oracle budget.sent (selected.map fun s => s.2.event) with - | code | -
    · simp only [hanswer]
      exact ⟨[.delivered], by rw [hone]; rfl, by rw [hone]; rfl⟩
    · simp only [hanswer]
      by_cases hcode : code = 400
      · subst hcode
        rw [if_neg (not_not.mpr rfl)]
        by_cases hstop : selected.length ≤ 1 ∨ budget.splits ≤ 0
        · rw [dif_pos hstop]
          exact ⟨[.status 400], by rw [hone, Counting.answered, if_neg (not_not.mpr rfl), if_pos hstop],
            by rw [hone, Counting.answered, if_neg (not_not.mpr rfl), if_pos hstop]⟩
        · -- the halves take the place of the batch
          have hhalves : s.answered selected batches budget.splits (.status 400) =
              { s with
                phase := .sending (selected.take ((selected.length + 1) / 2) ::
                  selected.drop ((selected.length + 1) / 2) :: batches) (budget.splits - 1) } := by
            rw [Counting.answered, if_neg (not_not.mpr rfl), if_neg hstop]
          rw [dif_neg hstop]
          generalize hsent : { budget with
            splits := budget.splits - 1
            sent := budget.sent ++ [(selected.map fun s : Selected α μ => s.2.event, Answer.status 400)] } = budget₁
          have hsplits : budget₁.splits = budget.splits - 1 := by rw [← hsent]
          obtain ⟨first, hbuffers₁, hphase₁⟩ := ih _ (by rw [List.length_take]; omega)
            (selected.take ((selected.length + 1) / 2)) (selected.drop ((selected.length + 1) / 2) :: batches) budget₁
            (s.answered selected batches budget.splits (.status 400)) (by rw [hhalves, hsplits]) rfl
          obtain ⟨second, hbuffers₂, hphase₂⟩ := ih _ (by rw [List.length_drop]; omega)
            (selected.drop ((selected.length + 1) / 2)) batches _ _ hphase₁ rfl
          refine ⟨.status 400 :: (first ++ second), ?_, ?_⟩
          · rw [List.foldl_cons, hnext, List.foldl_append, hbuffers₂, hbuffers₁, hhalves]
          · rw [List.foldl_cons, hnext, List.foldl_append, hphase₂, hbuffers₁, hhalves]
      · rw [if_pos hcode]
        exact ⟨[.status code], by rw [hone, Counting.answered, if_pos hcode],
          by rw [hone, Counting.answered, if_pos hcode]⟩
    · simp only [hanswer]
      exact ⟨[.failed], by rw [hone]; rfl, by rw [hone]; rfl⟩

end PythonAgent
