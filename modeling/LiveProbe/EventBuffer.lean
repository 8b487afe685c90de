/-
LiveProbe/EventBuffer.lean

The event buffer of the Node agent: `event-buffer.ts`.

Room for a new event is made at the front, where the oldest events are; room for
events that are put back is made at the end.  What is evicted is counted.

A journal numbers the events as they are enqueued and keeps what was taken out,
so that it can be said where each event is (`Accounted`).  The order of the queue
is another matter: a batch that is put back goes to the very front, so the queue
stays in order as long as no older event is there already (`InFront`).  A flush
takes one batch and settles it before the next is taken, so it always is.
-/
import LiveProbe.Transition
import Mathlib.Algebra.BigOperators.Group.List.Basic
import Mathlib.Data.List.Nodup
import Mathlib.Algebra.Order.Group.Multiset
import Mathlib.Tactic.Abel
import Mathlib.Data.Rat.Cast.Order

namespace NodeAgent

/-! ### The buffer -/

structure BufferedEvent (α : Type) where
  event : α
  bytes : ℤ

/-- `EventBuffer`; `dropped` is `droppedEvents`. -/
structure EventBuffer (α : Type) where
  maxBytes : ℕ
  events : List (BufferedEvent α) := []
  bytes : ℤ := 0
  dropped : ℕ := 0

namespace EventBuffer

variable {α : Type}

/-- The loop of `enqueue`: the oldest events make room. -/
def evictOldest (maxBytes : ℕ) (incoming : ℤ) : List (BufferedEvent α) → ℤ → ℕ → List (BufferedEvent α) × ℤ × ℕ
  | [], bytes, dropped => ([], bytes, dropped)
  | removed :: rest, bytes, dropped =>
    if maxBytes < bytes + incoming then evictOldest maxBytes incoming rest (bytes - removed.bytes) (dropped + 1)
    else (removed :: rest, bytes, dropped)

def enqueue (size : α → ℕ) (event : α) (b : EventBuffer α) : EventBuffer α × Bool :=
  if b.maxBytes < size event then ({ b with dropped := b.dropped + 1 }, false)
  else
    let (events, bytes, dropped) := evictOldest b.maxBytes (size event) b.events b.bytes b.dropped
    ({ b with events := events ++ [⟨event, size event⟩], bytes := bytes + size event, dropped := dropped }, true)

/-- The loop of `takeBatch`: the events, the batch and its bytes, and the bytes left. -/
def takeLoop (maxBytes : ℚ) : List (BufferedEvent α) → List α → ℤ → ℤ → List (BufferedEvent α) × List α × ℤ
  | [], batch, _, left => ([], batch, left)
  | next :: rest, batch, bytes, left =>
    if 0 < batch.length ∧ maxBytes < ↑(bytes + next.bytes) then (next :: rest, batch, left)
    else if maxBytes ≤ ↑(bytes + next.bytes) then (rest, batch ++ [next.event], left - next.bytes)
    else takeLoop maxBytes rest (batch ++ [next.event]) (bytes + next.bytes) (left - next.bytes)

def takeBatch (maxBytes : ℚ) (b : EventBuffer α) : EventBuffer α × List α :=
  if b.events.length = 0 ∨ maxBytes ≤ 0 then (b, [])
  else
    let (events, batch, bytes) := takeLoop maxBytes b.events [] 0 b.bytes
    ({ b with events := events, bytes := bytes }, batch)

/-- The loop of `requeueFront`, over the events from the last one on. -/
def evictNewest (maxBytes : ℕ) : List (BufferedEvent α) → ℤ → ℕ → List (BufferedEvent α) × ℤ × ℕ
  | [], bytes, dropped => ([], bytes, dropped)
  | removed :: rest, bytes, dropped =>
    if maxBytes < bytes then evictNewest maxBytes rest (bytes - removed.bytes) (dropped + 1)
    else (removed :: rest, bytes, dropped)

/-- The bytes of some events. -/
def total (events : List (BufferedEvent α)) : ℤ := (events.map BufferedEvent.bytes).sum

def requeueFront (size : α → ℕ) (restored : List α) (b : EventBuffer α) : EventBuffer α :=
  let events := restored.map (fun event => ⟨event, size event⟩) ++ b.events
  let (kept, bytes, dropped) := evictNewest b.maxBytes events.reverse (total events) b.dropped
  { b with events := kept.reverse, bytes := bytes, dropped := dropped }

def recordRejected (rejected : List α) (b : EventBuffer α) : EventBuffer α :=
  { b with dropped := b.dropped + rejected.length }

/-- The queued events. -/
def queued (b : EventBuffer α) : List α := b.events.map BufferedEvent.event

/-! ### What each operation does -/

/-- The bytes are those of the queued events, and within the limit. -/
structure Counted (size : α → ℕ) (b : EventBuffer α) : Prop where
  bytes : b.bytes = total b.events
  limit : b.bytes ≤ b.maxBytes
  sized : ∀ e ∈ b.events, e.bytes = size e.event

variable {size : α → ℕ} {b : EventBuffer α}

@[simp] theorem total_nil : total ([] : List (BufferedEvent α)) = 0 := rfl

@[simp] theorem total_cons (e : BufferedEvent α) (events : List (BufferedEvent α)) :
    total (e :: events) = e.bytes + total events := rfl

theorem total_append (l l' : List (BufferedEvent α)) : total (l ++ l') = total l + total l' := by
  rw [total, List.map_append, List.sum_append]
  rfl

theorem total_reverse (events : List (BufferedEvent α)) : total events.reverse = total events := by
  rw [total, List.map_reverse, List.sum_reverse]
  rfl

theorem total_nonneg {events : List (BufferedEvent α)} (h : ∀ e ∈ events, e.bytes = size e.event) :
    0 ≤ total events := by
  induction events with
  | nil => exact le_rfl
  | cons e rest ih =>
    rw [total_cons, h e List.mem_cons_self]
    exact add_nonneg (Int.natCast_nonneg _) (ih fun e' he' => h e' (List.mem_cons_of_mem e he'))

theorem sum_sizes {events : List (BufferedEvent α)} (h : ∀ e ∈ events, e.bytes = size e.event) :
    ((events.map BufferedEvent.event).map fun e => (size e : ℤ)).sum = total events := by
  rw [List.map_map, total]
  exact congrArg List.sum (List.map_congr_left fun e he => (h e he).symm)

theorem Counted.bytes_eq (h : Counted size b) : b.bytes = (b.queued.map fun e => (size e : ℤ)).sum := by
  rw [h.bytes, queued, sum_sizes h.sized]

theorem evictOldest_spec (maxBytes : ℕ) (incoming : ℤ) (events : List (BufferedEvent α)) (dropped : ℕ) :
    ∃ gone kept, events = gone ++ kept ∧
      evictOldest maxBytes incoming events (total events) dropped = (kept, total kept, dropped + gone.length) ∧
      (total kept + incoming ≤ maxBytes ∨ kept = []) := by
  induction events generalizing dropped with
  | nil => exact ⟨[], [], rfl, rfl, .inr rfl⟩
  | cons removed rest ih =>
    unfold evictOldest
    split
    · obtain ⟨gone, kept, rfl, hrest, hroom⟩ := ih (dropped + 1)
      refine ⟨removed :: gone, kept, rfl, ?_, hroom⟩
      rw [total_cons, add_sub_cancel_left, hrest, List.length_cons, Nat.add_right_comm, Nat.add_assoc]
    · next hroom => exact ⟨[], removed :: rest, rfl, rfl, .inl (not_lt.mp hroom)⟩

theorem evictNewest_spec (maxBytes : ℕ) (events : List (BufferedEvent α)) (dropped : ℕ) :
    ∃ gone kept, events = gone ++ kept ∧
      evictNewest maxBytes events (total events) dropped = (kept, total kept, dropped + gone.length) ∧
      total kept ≤ maxBytes := by
  induction events generalizing dropped with
  | nil => exact ⟨[], [], rfl, rfl, Int.natCast_nonneg _⟩
  | cons removed rest ih =>
    unfold evictNewest
    split
    · obtain ⟨gone, kept, rfl, hrest, hroom⟩ := ih (dropped + 1)
      refine ⟨removed :: gone, kept, rfl, ?_, hroom⟩
      rw [total_cons, add_sub_cancel_left, hrest, List.length_cons, Nat.add_right_comm, Nat.add_assoc]
    · next hroom => exact ⟨[], removed :: rest, rfl, rfl, not_lt.mp hroom⟩

theorem takeLoop_spec (maxBytes : ℚ) (events : List (BufferedEvent α)) (batch : List α) (bytes : ℤ) :
    ∃ taken kept, events = taken ++ kept ∧
      takeLoop maxBytes events batch bytes (total events) = (kept, batch ++ taken.map BufferedEvent.event, total kept) ∧
      (events ≠ [] → batch = [] → taken ≠ []) ∧
      (maxBytes < ↑(bytes + total taken) → bytes < maxBytes → batch.length + taken.length ≤ 1) := by
  induction events generalizing batch bytes with
  | nil =>
    refine ⟨[], [], rfl, by rw [takeLoop, List.map_nil, List.append_nil], fun h => absurd rfl h, fun h h' => ?_⟩
    rw [total_nil, add_zero] at h
    exact absurd h h'.not_gt
  | cons next rest ih =>
    unfold takeLoop
    split
    · next hfull =>
      refine ⟨[], next :: rest, rfl, by rw [List.map_nil, List.append_nil], fun _ hbatch => ?_, fun h h' => ?_⟩
      · rw [hbatch] at hfull
        exact absurd hfull.1 (lt_irrefl 0)
      · rw [total_nil, add_zero] at h
        exact absurd h h'.not_gt
    · next hroom =>
      split
      · refine ⟨[next], rest, rfl, by rw [total_cons, add_sub_cancel_left]; rfl, fun _ _ => List.cons_ne_nil _ _,
          fun h _ => ?_⟩
        -- an event that goes beyond the budget is the first of its batch
        rw [total_cons, total_nil, add_zero] at h
        rw [List.length_singleton]
        by_contra hlength
        exact hroom ⟨by omega, h⟩
      · next hleft =>
        obtain ⟨taken, kept, rfl, htake, -, hbudget⟩ := ih (batch ++ [next.event]) (bytes + next.bytes)
        refine ⟨next :: taken, kept, rfl, ?_, fun _ _ => List.cons_ne_nil _ _, fun h _ => ?_⟩
        · rw [total_cons, add_sub_cancel_left, htake, List.append_assoc]
          rfl
        · rw [total_cons, ← add_assoc] at h
          have hle := hbudget h (not_le.mp hleft)
          rw [List.length_append, List.length_singleton] at hle
          rw [List.length_cons]
          omega

/-- What `enqueue` does: the event is dropped, or it is queued after what is left of the queue. -/
theorem enqueue_cases (h : Counted size b) (event : α) :
    (b.enqueue size event).1.Counted size ∧
      ((b.enqueue size event).1.queued = b.queued ∧ (b.enqueue size event).1.dropped = b.dropped + 1 ∨
        ∃ gone kept, b.queued = gone ++ kept ∧ (b.enqueue size event).1.queued = kept ++ [event] ∧
          (b.enqueue size event).1.dropped = b.dropped + gone.length) := by
  unfold enqueue
  by_cases hsize : b.maxBytes < size event
  · rw [if_pos hsize]
    exact ⟨⟨h.bytes, h.limit, h.sized⟩, .inl ⟨rfl, rfl⟩⟩
  · rw [if_neg hsize]
    obtain ⟨gone, kept, hevents, hevict, hroom⟩ := evictOldest_spec b.maxBytes (size event) b.events b.dropped
    rw [← h.bytes] at hevict
    simp only [hevict]
    refine ⟨⟨?_, ?_, fun e he => ?_⟩, .inr ⟨gone.map BufferedEvent.event, kept.map BufferedEvent.event, ?_, ?_, ?_⟩⟩
    · show total kept + size event = total (kept ++ [_])
      rw [total_append, total_cons, total_nil, add_zero]
    · show total kept + size event ≤ b.maxBytes
      rcases hroom with hroom | rfl
      · exact hroom
      · rw [total_nil, zero_add]
        exact_mod_cast not_lt.mp hsize
    · rcases List.mem_append.mp he with he | he
      · exact h.sized e (by rw [hevents]; exact List.mem_append_right gone he)
      · rw [List.mem_singleton.mp he]
    · rw [queued, hevents, List.map_append]
    · exact List.map_append
    · rw [List.length_map]

/-- What `takeBatch` does: it takes the front of the queue. -/
theorem takeBatch_cases (h : Counted size b) (maxBytes : ℚ) :
    (b.takeBatch maxBytes).1.Counted size ∧ (b.takeBatch maxBytes).1.dropped = b.dropped ∧
      b.queued = (b.takeBatch maxBytes).2 ++ (b.takeBatch maxBytes).1.queued ∧
      (b.queued ≠ [] → 0 < maxBytes → (b.takeBatch maxBytes).2 ≠ []) ∧
      (maxBytes < ↑((b.takeBatch maxBytes).2.map fun e => (size e : ℤ)).sum → 0 < maxBytes →
        (b.takeBatch maxBytes).2.length = 1) := by
  unfold takeBatch
  by_cases hidle : b.events.length = 0 ∨ maxBytes ≤ 0
  · rw [if_pos hidle]
    refine ⟨h, rfl, rfl, fun hqueued hbudget => ?_, fun hover hbudget => ?_⟩
    · rcases hidle with hnil | hbudget'
      · exact absurd (List.map_eq_nil_iff.mpr (List.length_eq_zero_iff.mp hnil)) hqueued
      · exact absurd hbudget hbudget'.not_gt
    · rw [List.map_nil, List.sum_nil, Int.cast_zero] at hover
      exact absurd hover hbudget.not_gt
  · rw [if_neg hidle]
    obtain ⟨taken, kept, hevents, htake, hsome, hbudget⟩ := takeLoop_spec maxBytes b.events [] 0
    rw [← h.bytes, List.nil_append] at htake
    simp only [htake]
    have hnil : b.events ≠ [] := fun hnil => hidle (.inl (List.length_eq_zero_iff.mpr hnil))
    have htaken := hsome hnil rfl
    have hsized : ∀ e ∈ taken, e.bytes = size e.event := fun e he =>
      h.sized e (by rw [hevents]; exact List.mem_append_left kept he)
    have hpositive : 0 ≤ total taken := total_nonneg hsized
    refine ⟨⟨rfl, ?_, fun e he => h.sized e (by rw [hevents]; exact List.mem_append_right taken he)⟩, trivial, ?_,
      fun _ _ hmap => htaken (List.map_eq_nil_iff.mp hmap), fun hover hpos => ?_⟩
    · have hlimit := h.limit
      rw [h.bytes, hevents, total_append] at hlimit
      show total kept ≤ b.maxBytes
      omega
    · rw [queued, hevents, List.map_append]
      rfl
    · rw [sum_sizes hsized] at hover
      have hle := hbudget (by rw [zero_add]; exact hover) (by rw [Int.cast_zero]; exact hpos)
      rw [List.length_nil, Nat.zero_add] at hle
      rw [List.length_map]
      exact le_antisymm hle (List.length_pos_iff.mpr htaken)

/-- What `requeueFront` does: the events are put before the queue, whose end may go. -/
theorem requeueFront_cases (h : Counted size b) (restored : List α) :
    (b.requeueFront size restored).Counted size ∧
      ∃ gone, restored ++ b.queued = (b.requeueFront size restored).queued ++ gone ∧
        (b.requeueFront size restored).dropped = b.dropped + gone.length := by
  have hsized : ∀ e ∈ restored.map (fun event => (⟨event, size event⟩ : BufferedEvent α)) ++ b.events,
      e.bytes = size e.event := by
    intro e he
    rcases List.mem_append.mp he with he | he
    · obtain ⟨event, -, rfl⟩ := List.mem_map.mp he
      rfl
    · exact h.sized e he
  have hqueued : restored ++ b.queued =
      (restored.map (fun event => (⟨event, size event⟩ : BufferedEvent α)) ++ b.events).map BufferedEvent.event := by
    rw [List.map_append, List.map_map]
    congr 1
    exact (List.map_id restored).symm
  unfold requeueFront
  generalize restored.map (fun event => (⟨event, size event⟩ : BufferedEvent α)) ++ b.events = events
    at hsized hqueued ⊢
  obtain ⟨gone, kept, hevents, hevict, hlimit⟩ := evictNewest_spec b.maxBytes events.reverse b.dropped
  rw [total_reverse] at hevict
  simp only [hevict]
  have hsplit : events = kept.reverse ++ gone.reverse := by
    rw [← List.reverse_append, ← hevents, List.reverse_reverse]
  refine ⟨⟨(total_reverse kept).symm, hlimit, fun e he => ?_⟩, (gone.reverse).map BufferedEvent.event, ?_, ?_⟩
  · exact hsized e (by rw [hsplit]; exact List.mem_append_left _ he)
  · rw [hqueued, hsplit, List.map_append]
    rfl
  · rw [List.length_map, List.length_reverse]

theorem recordRejected_counted (h : Counted size b) (rejected : List α) : (b.recordRejected rejected).Counted size :=
  ⟨h.bytes, h.limit, h.sized⟩

end EventBuffer

/-! ### The journal -/

/-- A buffer of numbered events, the events enqueued so far, and the batches taken
and not yet settled. -/
structure Journal (α : Type) where
  buffer : EventBuffer (ℕ × α)
  enqueued : List (ℕ × α) := []
  inFlight : List (List (ℕ × α)) := []
  delivered : List (ℕ × α) := []

namespace Journal

variable {α : Type}

inductive Call (α : Type)
  | enqueue (event : α)
  | takeBatch (maxBytes : ℚ)
  | requeueFront (i : ℕ) (part : List (ℕ × α))
  | recordRejected (i : ℕ) (part : List (ℕ × α))
  | deliver (i : ℕ) (part : List (ℕ × α))

/-- What is left of a batch without a part of it. -/
def without (part batch : List (ℕ × α)) : List (ℕ × α) :=
  batch.filter fun e => !(part.map Prod.fst).contains e.1

/-- The batches without a part of the `i`-th. -/
def settle (i : ℕ) (part : List (ℕ × α)) (j : Journal α) : Journal α :=
  { j with inFlight := j.inFlight.modify i (without part) }

def next (size : α → ℕ) (j : Journal α) : Call α → Journal α
  | .enqueue event =>
    let entry := (j.enqueued.length, event)
    { j with buffer := (j.buffer.enqueue (fun e => size e.2) entry).1, enqueued := j.enqueued ++ [entry] }
  | .takeBatch maxBytes =>
    let (buffer, batch) := j.buffer.takeBatch maxBytes
    { j with buffer := buffer, inFlight := j.inFlight ++ [batch] }
  | .requeueFront i part =>
    { j.settle i part with buffer := j.buffer.requeueFront (fun e => size e.2) part }
  | .recordRejected i part => { j.settle i part with buffer := j.buffer.recordRejected part }
  | .deliver i part => { j.settle i part with delivered := j.delivered ++ part }

/-- The part is of the `i`-th batch, as far as it is not settled. -/
def PartOf (j : Journal α) (i : ℕ) (part : List (ℕ × α)) : Prop :=
  ∃ batch, j.inFlight[i]? = some batch ∧ part.Sublist batch

/-- What is put back, rejected or delivered is a part of a batch. -/
def Allowed (j : Journal α) : Call α → Prop
  | .enqueue _ | .takeBatch _ => True
  | .requeueFront i part | .recordRejected i part | .deliver i part => j.PartOf i part

/-- What is put back was enqueued before all that is queued. -/
def InFront (j : Journal α) (call : Call α) : Prop :=
  j.Allowed call ∧
    ∀ i part, call = .requeueFront i part → ∀ e ∈ part, ∀ e' ∈ j.buffer.queued, e.1 < e'.1

/-- One batch at a time: it is settled before the next is taken, and what is put back is all that is
left of it. -/
def OneBatch (j : Journal α) (call : Call α) : Prop :=
  j.Allowed call ∧
    match call with
    | .takeBatch _ => j.inFlight.flatten = []
    | .requeueFront _ part => j.inFlight.flatten = part
    | _ => True

def start (maxBytes : ℕ) : Journal α where
  buffer := { maxBytes := maxBytes }

/-- The events that are queued, in flight or delivered. -/
def placed (j : Journal α) : Multiset (ℕ × α) := ↑j.buffer.queued + ↑j.inFlight.flatten + ↑j.delivered

/-- Each enqueued event is in one place, or one of those counted as dropped. -/
structure Accounted (size : α → ℕ) (j : Journal α) : Prop where
  counted : j.buffer.Counted fun e => size e.2
  numbered : j.enqueued.map Prod.fst = List.range j.enqueued.length
  placed : ∃ gone, j.placed + gone = ↑j.enqueued ∧ gone.card = j.buffer.dropped

/-- The queue, and each batch, is in the order of enqueueing. -/
structure Ordered (j : Journal α) : Prop where
  queued : j.buffer.queued.Pairwise fun e e' => e.1 < e'.1
  batches : ∀ batch ∈ j.inFlight, batch.Pairwise fun e e' => e.1 < e'.1

variable {size : α → ℕ} {j : Journal α} {i : ℕ} {part batch : List (ℕ × α)}

/-! ### The places -/

theorem Accounted.lt (h : j.Accounted size) {e : ℕ × α} (he : e ∈ j.placed) : e.1 < j.enqueued.length := by
  obtain ⟨gone, hplaced, -⟩ := h.placed
  have hmem : e ∈ j.enqueued := by
    rw [← Multiset.mem_coe, ← hplaced]
    exact Multiset.mem_add.mpr (.inl he)
  rw [← List.mem_range, ← h.numbered]
  exact List.mem_map_of_mem hmem

theorem Accounted.nodup (h : j.Accounted size) : (j.placed.map Prod.fst).Nodup := by
  obtain ⟨gone, hplaced, -⟩ := h.placed
  have hall : ((j.placed + gone).map Prod.fst).Nodup := by
    rw [hplaced, Multiset.map_coe, h.numbered]
    exact List.nodup_range
  rw [Multiset.map_add] at hall
  exact Multiset.nodup_of_le (Multiset.le_add_right _ _) hall

theorem Accounted.batch_nodup (h : j.Accounted size) (hbatch : j.inFlight[i]? = some batch) :
    (batch.map Prod.fst).Nodup := by
  have hle : (batch : Multiset (ℕ × α)) ≤ j.placed := by
    refine le_trans ?_ (Multiset.le_add_right _ _)
    refine le_trans ?_ (Multiset.le_add_left _ _)
    exact (List.sublist_flatten_of_mem (List.mem_of_getElem? hbatch)).subperm
  exact Multiset.nodup_of_le (Multiset.map_le_map hle) h.nodup

theorem without_add (hpart : part.Sublist batch) (hnodup : (batch.map Prod.fst).Nodup) :
    (without part batch : Multiset (ℕ × α)) + part = batch := by
  have hrest : (batch.filter fun e => (part.map Prod.fst).contains e.1).Perm part := by
    have hbatch := List.Nodup.of_map Prod.fst hnodup
    refine (List.perm_ext_iff_of_nodup (hbatch.filter _) (hbatch.sublist hpart)).mpr fun e => ?_
    rw [List.mem_filter, List.contains_iff_mem, List.mem_map]
    constructor
    · rintro ⟨he, e', he', heq⟩
      exact List.inj_on_of_nodup_map hnodup (hpart.subset he') he heq ▸ he'
    · exact fun he => ⟨hpart.subset he, e, he, rfl⟩
  rw [← Multiset.coe_eq_coe.mpr hrest, Multiset.coe_add, Multiset.coe_eq_coe]
  exact (List.perm_append_comm).trans (List.filter_append_perm _ batch)

theorem flatten_modify_add {batches : List (List (ℕ × α))} {f : List (ℕ × α) → List (ℕ × α)}
    (hbatch : batches[i]? = some batch) (hf : (f batch : Multiset (ℕ × α)) + part = batch) :
    ((batches.modify i f).flatten : Multiset (ℕ × α)) + part = batches.flatten := by
  induction batches generalizing i with
  | nil => cases hbatch
  | cons b batches ih =>
    cases i with
    | zero =>
      cases hbatch
      rw [List.modify_zero_cons, List.flatten_cons, List.flatten_cons, ← Multiset.coe_add, ← Multiset.coe_add,
        add_right_comm, hf]
    | succ i =>
      rw [List.modify_succ_cons, List.flatten_cons, List.flatten_cons, ← Multiset.coe_add, ← Multiset.coe_add,
        add_assoc, ih hbatch]

/-- What is settled is no longer in flight. -/
theorem Accounted.settle (h : j.Accounted size) (hpart : j.PartOf i part) :
    ((j.settle i part).inFlight.flatten : Multiset (ℕ × α)) + part = j.inFlight.flatten := by
  obtain ⟨batch, hbatch, hsub⟩ := hpart
  exact flatten_modify_add hbatch (without_add hsub (h.batch_nodup hbatch))

/-- Events that leave their place are counted. -/
theorem Accounted.of_placed {j' : Journal α} (h : j.Accounted size) (out : Multiset (ℕ × α))
    (hcounted : j'.buffer.Counted fun e => size e.2) (henqueued : j'.enqueued = j.enqueued)
    (hplaced : j'.placed + out = j.placed) (hdropped : j'.buffer.dropped = j.buffer.dropped + out.card) :
    j'.Accounted size := by
  obtain ⟨gone, hgone, hcard⟩ := h.placed
  refine ⟨hcounted, by rw [henqueued]; exact h.numbered, out + gone, ?_, ?_⟩
  · rw [henqueued, ← hgone, ← hplaced, add_assoc]
  · rw [Multiset.card_add, hdropped, hcard, Nat.add_comm]

/-- An event that is enqueued has a place, and those that make room are counted. -/
theorem Accounted.enqueue (h : j.Accounted size) (event : α) : (j.next size (.enqueue event)).Accounted size := by
  obtain ⟨hcounted, hcases⟩ := EventBuffer.enqueue_cases h.counted (j.enqueued.length, event)
  obtain ⟨gone, hgone, hcard⟩ := h.placed
  refine ⟨hcounted, ?_, ?_⟩
  · show (j.enqueued ++ [_]).map Prod.fst = List.range (j.enqueued ++ [_]).length
    rw [List.map_append, h.numbered, List.length_append, List.length_singleton, List.range_succ]
    rfl
  show ∃ gone : Multiset (ℕ × α),
    (↑(j.next size (.enqueue event)).buffer.queued + ↑j.inFlight.flatten + ↑j.delivered + gone : Multiset (ℕ × α)) =
      ((j.enqueued ++ [(j.enqueued.length, event)] : List (ℕ × α)) : Multiset (ℕ × α)) ∧ _
  rw [← Multiset.coe_add, ← hgone, Journal.placed]
  rcases hcases with ⟨hqueued, hdropped⟩ | ⟨evicted, kept, hqueued, hqueued', hdropped⟩
  · -- the event itself is dropped
    refine ⟨gone + {(j.enqueued.length, event)}, ?_, ?_⟩
    · rw [show (j.next size (.enqueue event)).buffer.queued = j.buffer.queued from hqueued, ← add_assoc]
      rfl
    · rw [Multiset.card_add, Multiset.card_singleton, hcard]
      exact hdropped.symm
  · refine ⟨gone + evicted, ?_, ?_⟩
    · rw [show (j.next size (.enqueue event)).buffer.queued = _ from hqueued', hqueued, ← Multiset.coe_add,
        ← Multiset.coe_add]
      abel
    · rw [Multiset.card_add, Multiset.coe_card, hcard]
      exact hdropped.symm

theorem Accounted.next (h : j.Accounted size) {call : Call α} (hok : j.Allowed call) :
    (j.next size call).Accounted size := by
  cases call with
  | enqueue event => exact h.enqueue event
  | takeBatch maxBytes =>
    obtain ⟨hcounted, hdropped, hqueued, -⟩ := EventBuffer.takeBatch_cases h.counted maxBytes
    refine h.of_placed 0 hcounted rfl ?_ hdropped
    show ↑(j.buffer.takeBatch maxBytes).1.queued + ↑(j.inFlight ++ [(j.buffer.takeBatch maxBytes).2]).flatten
      + ↑j.delivered + 0 = (↑j.buffer.queued + ↑j.inFlight.flatten + ↑j.delivered : Multiset (ℕ × α))
    rw [hqueued, List.flatten_append, List.flatten_singleton, ← Multiset.coe_add, ← Multiset.coe_add]
    abel
  | requeueFront i part =>
    obtain ⟨hcounted, gone, hqueued, hdropped⟩ := EventBuffer.requeueFront_cases h.counted part
    refine h.of_placed gone hcounted rfl ?_ hdropped
    have hmulti : (part : Multiset (ℕ × α)) + j.buffer.queued =
        ↑(j.buffer.requeueFront (fun e => size e.2) part).queued + ↑gone := by
      rw [Multiset.coe_add, hqueued, Multiset.coe_add]
    show ↑(j.buffer.requeueFront (fun e => size e.2) part).queued + ↑(j.settle i part).inFlight.flatten
      + ↑j.delivered + ↑gone = (↑j.buffer.queued + ↑j.inFlight.flatten + ↑j.delivered : Multiset (ℕ × α))
    rw [← h.settle hok]
    calc (↑(j.buffer.requeueFront (fun e : ℕ × α => size e.2) part).queued + ↑(j.settle i part).inFlight.flatten
          + ↑j.delivered + ↑gone : Multiset (ℕ × α))
      _ = (↑(j.buffer.requeueFront (fun e : ℕ × α => size e.2) part).queued + ↑gone)
          + ↑(j.settle i part).inFlight.flatten + ↑j.delivered := by abel
      _ = ↑j.buffer.queued + (↑(j.settle i part).inFlight.flatten + ↑part) + ↑j.delivered := by
        rw [← hmulti]
        abel
  | recordRejected i part =>
    refine h.of_placed part (EventBuffer.recordRejected_counted h.counted part) rfl ?_ rfl
    show ↑j.buffer.queued + ↑(j.settle i part).inFlight.flatten + ↑j.delivered + ↑part =
      (↑j.buffer.queued + ↑j.inFlight.flatten + ↑j.delivered : Multiset (ℕ × α))
    rw [← h.settle hok]
    abel
  | deliver i part =>
    refine h.of_placed 0 h.counted rfl ?_ rfl
    show ↑j.buffer.queued + ↑(j.settle i part).inFlight.flatten + ↑(j.delivered ++ part) + 0 =
      (↑j.buffer.queued + ↑j.inFlight.flatten + ↑j.delivered : Multiset (ℕ × α))
    rw [← h.settle hok, ← Multiset.coe_add]
    abel

/-! ### The order -/

theorem mem_modify {batches : List (List (ℕ × α))} {f : List (ℕ × α) → List (ℕ × α)}
    (hbatch : batch ∈ batches.modify i f) : ∃ b ∈ batches, batch = b ∨ batch = f b := by
  induction batches generalizing i with
  | nil => cases i <;> cases hbatch
  | cons b batches ih =>
    cases i with
    | zero =>
      rcases List.mem_cons.mp hbatch with rfl | hbatch
      · exact ⟨b, List.mem_cons_self, .inr rfl⟩
      · exact ⟨batch, List.mem_cons_of_mem b hbatch, .inl rfl⟩
    | succ i =>
      rcases List.mem_cons.mp hbatch with rfl | hbatch
      · exact ⟨batch, List.mem_cons_self, .inl rfl⟩
      · obtain ⟨b', hb', hcases⟩ := ih hbatch
        exact ⟨b', List.mem_cons_of_mem b hb', hcases⟩

theorem Ordered.settle (h : j.Ordered) (i : ℕ) (part : List (ℕ × α)) :
    ∀ batch ∈ (j.settle i part).inFlight, batch.Pairwise fun e e' => e.1 < e'.1 := by
  intro batch hbatch
  obtain ⟨b, hb, rfl | rfl⟩ := mem_modify hbatch
  · exact h.batches _ hb
  · exact (h.batches b hb).filter _

theorem mem_placed_of_queued {e : ℕ × α} (he : e ∈ j.buffer.queued) : e ∈ j.placed :=
  Multiset.mem_add.mpr (.inl (Multiset.mem_add.mpr (.inl he)))

theorem mem_placed_of_inFlight {e : ℕ × α} (he : e ∈ j.inFlight.flatten) : e ∈ j.placed :=
  Multiset.mem_add.mpr (.inl (Multiset.mem_add.mpr (.inr he)))

theorem Ordered.next (h : j.Ordered) (hj : j.Accounted size) {call : Call α} (hok : j.InFront call) :
    (j.next size call).Ordered := by
  cases call with
  | enqueue event =>
    refine ⟨?_, h.batches⟩
    obtain ⟨-, ⟨hqueued, -⟩ | ⟨evicted, kept, hqueued, hqueued', -⟩⟩ :=
      EventBuffer.enqueue_cases hj.counted (j.enqueued.length, event)
    · show (EventBuffer.enqueue _ _ _).1.queued.Pairwise _
      rw [hqueued]
      exact h.queued
    · show (EventBuffer.enqueue _ _ _).1.queued.Pairwise _
      rw [hqueued']
      have hkept := h.queued
      rw [hqueued] at hkept
      refine List.pairwise_append.mpr ⟨(List.pairwise_append.mp hkept).2.1, List.pairwise_singleton _ _,
        fun e he e' he' => ?_⟩
      rw [List.mem_singleton.mp he']
      exact hj.lt (mem_placed_of_queued (by rw [hqueued]; exact List.mem_append_right evicted he))
  | takeBatch maxBytes =>
    obtain ⟨-, -, hqueued, -⟩ := EventBuffer.takeBatch_cases hj.counted maxBytes
    have hall := h.queued
    rw [hqueued] at hall
    obtain ⟨hbatch, hrest, -⟩ := List.pairwise_append.mp hall
    refine ⟨hrest, fun batch hmem => ?_⟩
    rcases List.mem_append.mp hmem with hmem | hmem
    · exact h.batches batch hmem
    · rw [List.mem_singleton.mp hmem]
      exact hbatch
  | requeueFront i part =>
    refine ⟨?_, h.settle i part⟩
    obtain ⟨batch, hbatch, hsub⟩ := hok.1
    obtain ⟨-, gone, hqueued, -⟩ := EventBuffer.requeueFront_cases hj.counted part
    have hall : (part ++ j.buffer.queued).Pairwise fun e e' => e.1 < e'.1 :=
      List.pairwise_append.mpr ⟨(h.batches batch (List.mem_of_getElem? hbatch)).sublist hsub, h.queued,
        hok.2 i part rfl⟩
    rw [hqueued] at hall
    exact (List.pairwise_append.mp hall).1
  | recordRejected i part => exact ⟨h.queued, h.settle i part⟩
  | deliver i part => exact ⟨h.queued, h.settle i part⟩

/-! ### Runs -/

theorem start_accounted (size : α → ℕ) (maxBytes : ℕ) : (start maxBytes : Journal α).Accounted size :=
  ⟨⟨rfl, Int.natCast_nonneg _, List.forall_mem_nil _⟩, rfl, 0, rfl, rfl⟩

theorem reached_accounted {maxBytes : ℕ} (h : Reached (next size) Allowed (start maxBytes) j) : j.Accounted size :=
  h.invariant (start_accounted size maxBytes) fun _ _ hs hok => hs.next hok

theorem reached_ordered {maxBytes : ℕ} (h : Reached (next size) InFront (start maxBytes) j) : j.Ordered :=
  (h.invariant (I := fun j => j.Accounted size ∧ j.Ordered)
    ⟨start_accounted size maxBytes, .nil, List.forall_mem_nil _⟩
    fun _ _ hs hok => ⟨hs.1.next hok.1, hs.2.next hs.1 hok⟩).2

theorem next_maxBytes (size : α → ℕ) (j : Journal α) (call : Call α) :
    (j.next size call).buffer.maxBytes = j.buffer.maxBytes := by
  cases call with
  | enqueue event =>
    show (EventBuffer.enqueue _ _ _).1.maxBytes = _
    rw [EventBuffer.enqueue]
    split <;> rfl
  | takeBatch maxBytes =>
    show (EventBuffer.takeBatch _ _).1.maxBytes = _
    rw [EventBuffer.takeBatch]
    split <;> rfl
  | requeueFront i part => rfl
  | recordRejected i part => rfl
  | deliver i part => rfl

theorem reached_maxBytes {maxBytes : ℕ} (h : Reached (next size) Allowed (start maxBytes) j) :
    j.buffer.maxBytes = maxBytes :=
  h.invariant (I := fun j => j.buffer.maxBytes = maxBytes) rfl fun s call hs _ => (next_maxBytes size s call).trans hs

/-- The events of the batch in flight were enqueued before all that is queued. -/
def Ahead (j : Journal α) : Prop := ∀ e ∈ j.inFlight.flatten, ∀ e' ∈ j.buffer.queued, e.1 < e'.1

theorem OneBatch.inFront (h : j.Ahead) {call : Call α} (hok : j.OneBatch call) : j.InFront call := by
  refine ⟨hok.1, fun i part hcall e he => h e ?_⟩
  subst hcall
  exact hok.2 ▸ he

theorem Accounted.settle_subset (h : j.Accounted size) (hpart : j.PartOf i part) {e : ℕ × α}
    (he : e ∈ (j.settle i part).inFlight.flatten) : e ∈ j.inFlight.flatten := by
  rw [← Multiset.mem_coe, ← h.settle hpart]
  exact Multiset.mem_add.mpr (.inl he)

theorem Ahead.next (h : j.Ahead) (hj : j.Accounted size) (hordered : j.Ordered) {call : Call α}
    (hok : j.OneBatch call) : (j.next size call).Ahead := by
  cases call with
  | enqueue event =>
    intro e he e' he'
    obtain ⟨-, ⟨hqueued, -⟩ | ⟨evicted, kept, hqueued, hqueued', -⟩⟩ :=
      EventBuffer.enqueue_cases hj.counted (j.enqueued.length, event)
    · exact h e he e' (hqueued ▸ he')
    · rcases List.mem_append.mp (hqueued' ▸ he') with he' | he'
      · exact h e he e' (by rw [hqueued]; exact List.mem_append_right evicted he')
      · rw [List.mem_singleton.mp he']
        exact hj.lt (mem_placed_of_inFlight he)
  | takeBatch maxBytes =>
    obtain ⟨-, -, hqueued, -⟩ := EventBuffer.takeBatch_cases hj.counted maxBytes
    have hall := hordered.queued
    rw [hqueued] at hall
    intro e he e' he'
    have hbatch : e ∈ (j.inFlight ++ [(j.buffer.takeBatch maxBytes).2]).flatten := he
    rw [List.flatten_append, List.flatten_singleton, hok.2, List.nil_append] at hbatch
    exact (List.pairwise_append.mp hall).2.2 e hbatch e' he'
  | requeueFront i part =>
    have hsettle := hj.settle hok.1
    rw [hok.2, add_eq_right, Multiset.coe_eq_zero] at hsettle
    -- nothing is left in flight
    intro e he
    rw [show (j.next size (.requeueFront i part)).inFlight.flatten = [] from hsettle] at he
    cases he
  | recordRejected i part => exact fun e he => h e (hj.settle_subset hok.1 he)
  | deliver i part => exact fun e he => h e (hj.settle_subset hok.1 he)

/-- A run with one batch at a time puts events back before newer ones only. -/
theorem reached_inFront {maxBytes : ℕ} (h : Reached (next size) OneBatch (start maxBytes) j) :
    Reached (next size) InFront (start maxBytes) j ∧ j.Ahead := by
  induction h with
  | init => exact ⟨.init, fun e he => absurd he List.not_mem_nil⟩
  | step call _ hok ih =>
    have hj := reached_accounted (ih.1.mono fun _ _ hok => hok.1)
    exact ⟨.step call ih.1 (hok.inFront ih.2), ih.2.next hj (reached_ordered ih.1) hok⟩

/-- **The accounting of the buffer**, in every run. -/
theorem reached_buffer {maxBytes : ℕ} (h : Reached (next size) Allowed (start maxBytes) j) :
    j.buffer.bytes = (j.buffer.queued.map fun e => (size e.2 : ℤ)).sum ∧ j.buffer.bytes ≤ maxBytes ∧
      (Reached (next size) InFront (start maxBytes) j → j.buffer.queued.Pairwise fun e e' => e.1 < e'.1) ∧
      (Reached (next size) OneBatch (start maxBytes) j → j.buffer.queued.Pairwise fun e e' => e.1 < e'.1) ∧
      (∀ budget : ℚ, j.buffer.queued ≠ [] → 0 < budget → (j.buffer.takeBatch budget).2 ≠ [] ∧
        (budget < ↑((j.buffer.takeBatch budget).2.map fun e => (size e.2 : ℤ)).sum →
          (j.buffer.takeBatch budget).2.length = 1)) ∧
      j.enqueued.map Prod.fst = List.range j.enqueued.length ∧
      ∃ gone, j.placed + gone = ↑j.enqueued ∧ gone.card = j.buffer.dropped := by
  have hj := reached_accounted h
  refine ⟨hj.counted.bytes_eq, ?_, fun hfront => (reached_ordered hfront).queued,
    fun hone => (reached_ordered (reached_inFront hone).1).queued, fun budget hqueued hpos => ?_, hj.numbered,
    hj.placed⟩
  · rw [← reached_maxBytes h]
    exact hj.counted.limit
  · obtain ⟨-, -, -, hsome, hover⟩ := EventBuffer.takeBatch_cases hj.counted budget
    exact ⟨hsome hqueued hpos, fun hbudget => hover hbudget hpos⟩

namespace Sample

/-- Of two batches in flight, the older one is put back first. -/
def overtaken : List (Call Unit) :=
  [.enqueue (), .enqueue (), .takeBatch 1, .takeBatch 1, .requeueFront 0 [(0, ())], .requeueFront 1 [(1, ())]]

theorem overtaken_allowed : AllOk (next fun _ => 1) Allowed (start 10) overtaken :=
  ⟨trivial, trivial, trivial, trivial, ⟨_, rfl, List.Sublist.refl _⟩, ⟨_, rfl, List.Sublist.refl _⟩, trivial⟩

theorem overtaken_unordered :
    ¬ ∀ (size : Unit → ℕ) (maxBytes : ℕ) (j : Journal Unit), Reached (next size) Allowed (start maxBytes) j →
      j.buffer.queued.Pairwise fun e e' => e.1 < e'.1 := by
  intro h
  have hqueued := h _ 10 _ (Reached.init.foldl overtaken_allowed)
  rw [show (overtaken.foldl (next fun _ => 1) (start 10)).buffer.queued = [(1, ()), (0, ())] from rfl] at hqueued
  exact absurd hqueued (by decide)

/-- A failed flush. -/
def putBack : List (Call Unit) := [.enqueue (), .takeBatch 1, .enqueue (), .requeueFront 0 [(0, ())]]

theorem putBack_oneBatch : AllOk (next fun _ => 1) OneBatch (start 10) putBack :=
  ⟨⟨trivial, trivial⟩, ⟨trivial, rfl⟩, ⟨trivial, trivial⟩, ⟨⟨_, rfl, List.Sublist.refl _⟩, rfl⟩, trivial⟩

theorem putBack_buffer :
    ((putBack.foldl (next fun _ => 1) (start 10)).buffer.queued.Pairwise fun e e' => e.1 < e'.1) ∧
      ∃ gone, (putBack.foldl (next fun _ => 1) (start 10)).placed + gone =
        ↑(putBack.foldl (next fun _ => 1) (start 10)).enqueued ∧ gone.card = 0 := by
  have hone := Reached.init.foldl putBack_oneBatch
  obtain ⟨-, -, -, hordered, -, -, hplaced⟩ := reached_buffer (hone.mono fun _ _ hok => hok.1)
  exact ⟨hordered hone, hplaced⟩

end Sample

end Journal

end NodeAgent
