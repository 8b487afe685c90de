/-
LiveProbe/IngestQueue.lean

The batches that the native agent could not send: `BoundedQueue` of
`resilience.rs`, and `ingest` and `flush_pending_ingest` of `broker.rs` on it.

A head batch that cannot be sent is put back through `push_back`, which may
drop batches; but it was in the queue a moment ago, so there is room for it and
nothing is dropped (`pushFront_popFront`).  What is dropped is dropped for a new
batch only, from the front, or it is the new batch itself.

The client carries beside its queue what became of every batch that was ever
submitted.  A batch is known by its number, so two batches of one content are
two.
-/
import LiveProbe.Transition
import Mathlib.Algebra.GroupWithZero.Nat
import Mathlib.Data.List.Perm.Basic

namespace NativeAgent

/-- `usize::MAX` and `u64::MAX` -/
def usizeMax : ℕ := 2 ^ 64 - 1

def saturatingAdd (a b : ℕ) : ℕ := min (a + b) usizeMax

theorem saturatingAdd_of_le {a b : ℕ} (h : a + b ≤ usizeMax) : saturatingAdd a b = a + b :=
  Nat.min_eq_left h

/-! ### The queue -/

/-- `BoundedQueue`: the values with their sizes. -/
structure BoundedQueue (α : Type) where
  values : List (α × ℕ) := []
  bytes : ℕ := 0
  maximumItems : ℕ
  maximumBytes : ℕ
  dropped : ℕ := 0
  deriving DecidableEq

namespace BoundedQueue

variable {α : Type}

/-- The loop of `push_back`: the values it drops, those it keeps and their bytes. -/
def makeRoom (maximumItems maximumBytes bytes : ℕ) : List (α × ℕ) → ℕ → List α × List (α × ℕ) × ℕ
  | [], held => ([], [], held)
  | (value, removed) :: rest, held =>
    if maximumItems ≤ rest.length + 1 ∨ maximumBytes < saturatingAdd held bytes then
      let (lost, kept, held) := makeRoom maximumItems maximumBytes bytes rest (held - removed)
      (value :: lost, kept, held)
    else ([], (value, removed) :: rest, held)

/-- `push_back`, with the values that are dropped -/
def pushBack (q : BoundedQueue α) (value : α) (bytes : ℕ) : BoundedQueue α × List α :=
  if q.maximumBytes < bytes then ({ q with dropped := saturatingAdd q.dropped 1 }, [value])
  else
    let (lost, kept, held) := makeRoom q.maximumItems q.maximumBytes bytes q.values q.bytes
    ({ q with
       values := kept ++ [(value, bytes)]
       bytes := saturatingAdd held bytes
       dropped := saturatingAdd q.dropped lost.length }, lost)

def pushFront (q : BoundedQueue α) (value : α) (bytes : ℕ) : BoundedQueue α × List α :=
  let (q, lost) := q.pushBack value bytes
  match q.values.getLast? with
  | none => (q, lost)
  | some last => ({ q with values := last :: q.values.dropLast }, lost)

def popFront (q : BoundedQueue α) : Option ((α × ℕ) × BoundedQueue α) :=
  match q.values with
  | [] => none
  | (value, bytes) :: rest => some ((value, bytes), { q with values := rest, bytes := q.bytes - bytes })

/-- The sizes of some values, together. -/
def sizes (values : List (α × ℕ)) : ℕ := (values.map Prod.snd).sum

/-- A queue within its bounds, whose count of bytes is right. -/
structure Bounded (q : BoundedQueue α) : Prop where
  items : q.values.length ≤ q.maximumItems
  bytes_le : q.bytes ≤ q.maximumBytes
  bytes_eq : q.bytes = sizes q.values

/-- The bounds of a queue that holds anything at all; the count never saturates below them. -/
structure Limits (q : BoundedQueue α) : Prop where
  items : 0 < q.maximumItems
  bytes : q.maximumBytes < usizeMax

variable {q : BoundedQueue α}

/-- The values are dropped from the front until there is room. -/
theorem makeRoom_spec (maximumItems maximumBytes bytes : ℕ) (values : List (α × ℕ)) :
    ∃ gone kept, values = gone ++ kept ∧
      makeRoom maximumItems maximumBytes bytes values (sizes values) = (gone.map Prod.fst, kept, sizes kept) ∧
      (kept = [] ∨ kept.length < maximumItems ∧ saturatingAdd (sizes kept) bytes ≤ maximumBytes) := by
  induction values with
  | nil => exact ⟨[], [], rfl, rfl, .inl rfl⟩
  | cons entry rest ih =>
    obtain ⟨value, removed⟩ := entry
    obtain ⟨gone, kept, hrest, hroom, hend⟩ := ih
    have hremoved : sizes ((value, removed) :: rest) - removed = sizes rest := by
      rw [sizes, List.map_cons, List.sum_cons, Nat.add_sub_cancel_left, sizes]
    by_cases hfull : maximumItems ≤ rest.length + 1 ∨
        maximumBytes < saturatingAdd (sizes ((value, removed) :: rest)) bytes
    · refine ⟨(value, removed) :: gone, kept, by rw [hrest, List.cons_append], ?_, hend⟩
      rw [makeRoom, if_pos hfull, hremoved, hroom]
      rfl
    · refine ⟨[], (value, removed) :: rest, rfl, ?_, .inr ?_⟩
      · rw [makeRoom, if_neg hfull]
        rfl
      · rw [not_or, not_le, not_lt] at hfull
        exact ⟨hfull.1, hfull.2⟩

/-- With room for one more nothing is dropped. -/
theorem makeRoom_of_room {maximumItems maximumBytes bytes held : ℕ} {values : List (α × ℕ)}
    (hitems : values.length < maximumItems) (hbytes : saturatingAdd held bytes ≤ maximumBytes) :
    makeRoom maximumItems maximumBytes bytes values held = ([], values, held) := by
  cases values with
  | nil => rfl
  | cons entry rest =>
    have hroom : ¬ (maximumItems ≤ rest.length + 1 ∨ maximumBytes < saturatingAdd held bytes) := by
      rw [not_or, not_le, not_lt]
      exact ⟨hitems, hbytes⟩
    rw [makeRoom, if_neg hroom]

theorem sizes_append (l l' : List (α × ℕ)) : sizes (l ++ l') = sizes l + sizes l' := by
  rw [sizes, List.map_append, List.sum_append, sizes, sizes]

/-- A value is dropped because it is too large for the queue, or the oldest are for it. -/
theorem pushBack_spec (hq : q.Bounded) (hlimits : q.Limits) (value : α) (bytes : ℕ) :
    (q.maximumBytes < bytes ∧ (q.pushBack value bytes).2 = [value] ∧
        (q.pushBack value bytes).1.values = q.values ∧ (q.pushBack value bytes).1.bytes = q.bytes) ∨
      ∃ gone kept, q.values = gone ++ kept ∧ (q.pushBack value bytes).2 = gone.map Prod.fst ∧
        (q.pushBack value bytes).1.values = kept ++ [(value, bytes)] ∧ (q.pushBack value bytes).1.Bounded := by
  unfold pushBack
  by_cases hlarge : q.maximumBytes < bytes
  · rw [if_pos hlarge]
    exact .inl ⟨hlarge, rfl, rfl, rfl⟩
  · rw [if_neg hlarge, hq.bytes_eq]
    obtain ⟨gone, kept, hvalues, hroom, hend⟩ := makeRoom_spec q.maximumItems q.maximumBytes bytes q.values
    rw [hroom]
    refine .inr ⟨gone, kept, hvalues, rfl, rfl, ?_⟩
    have hbytes := hlimits.bytes
    have hitems := hlimits.items
    -- an empty queue has room for whatever is not too large for it
    have hfits : kept.length < q.maximumItems ∧ sizes kept + bytes ≤ q.maximumBytes := by
      rcases hend with rfl | ⟨hlength, hsum⟩
      · refine ⟨hitems, ?_⟩
        show 0 + bytes ≤ _
        omega
      · refine ⟨hlength, ?_⟩
        rw [saturatingAdd] at hsum
        omega
    have hsum : saturatingAdd (sizes kept) bytes = sizes kept + bytes :=
      saturatingAdd_of_le (by omega)
    constructor
    · show (kept ++ [(value, bytes)]).length ≤ q.maximumItems
      rw [List.length_append, List.length_singleton]
      exact hfits.1
    · show saturatingAdd (sizes kept) bytes ≤ q.maximumBytes
      rw [hsum]
      exact hfits.2
    · show saturatingAdd (sizes kept) bytes = sizes (kept ++ [(value, bytes)])
      rw [hsum, sizes_append]
      rfl

theorem pushBack_maxima (q : BoundedQueue α) (value : α) (bytes : ℕ) :
    (q.pushBack value bytes).1.maximumItems = q.maximumItems ∧
      (q.pushBack value bytes).1.maximumBytes = q.maximumBytes := by
  unfold pushBack
  split <;> exact ⟨rfl, rfl⟩

/-- What was taken from the front goes back there, and nothing is dropped for it. -/
theorem pushFront_popFront (hq : q.Bounded) (hlimits : q.Limits) {entry : α × ℕ} {rest : BoundedQueue α}
    (h : q.popFront = some (entry, rest)) :
    (rest.pushFront entry.1 entry.2).2 = [] ∧ (rest.pushFront entry.1 entry.2).1.values = q.values ∧
      (rest.pushFront entry.1 entry.2).1.bytes = q.bytes ∧
      (rest.pushFront entry.1 entry.2).1.maximumItems = q.maximumItems ∧
      (rest.pushFront entry.1 entry.2).1.maximumBytes = q.maximumBytes := by
  unfold popFront at h
  rcases hvalues : q.values with - | ⟨⟨value, bytes⟩, tail⟩
  · rw [hvalues] at h
    cases h
  rw [hvalues] at h
  obtain ⟨rfl, rfl⟩ := Prod.mk.inj (Option.some.inj h)
  have hbytes : q.bytes = bytes + sizes tail := by
    rw [hq.bytes_eq, hvalues]
    rfl
  have hle := hq.bytes_le
  have hmax := hlimits.bytes
  have hitems : tail.length + 1 ≤ q.maximumItems := by
    have hlength := hq.items
    rw [hvalues] at hlength
    exact hlength
  have hback : q.bytes - bytes + bytes = q.bytes := by omega
  have hsum : saturatingAdd (q.bytes - bytes) bytes = q.bytes := by
    rw [saturatingAdd_of_le (by omega), hback]
  have hpush : BoundedQueue.pushBack { q with values := tail, bytes := q.bytes - bytes } value bytes =
      ({ q with
         values := tail ++ [(value, bytes)]
         dropped := saturatingAdd q.dropped 0 }, []) := by
    unfold pushBack
    rw [if_neg (show ¬ q.maximumBytes < bytes by omega), makeRoom_of_room hitems (hsum.trans_le hle)]
    dsimp only [List.length_nil]
    rw [hsum]
  unfold pushFront
  rw [hpush]
  dsimp only
  rw [List.getLast?_concat, List.dropLast_concat]
  exact ⟨rfl, rfl, rfl, rfl, rfl⟩

end BoundedQueue

/-! ### The client -/

/-- What sending a batch comes to. -/
inductive SendResult
  | accepted
  /-- `BrokerHttpError` -/
  | refused (status : ℕ)
  /-- any other error -/
  | failed
  deriving DecidableEq

/-- `is_retryable`, of an error -/
def isRetryable : SendResult → Bool
  | .accepted => false
  | .refused status => status = 408 || status = 429 || 500 ≤ status
  | .failed => true

/-- A batch with its number among all that were submitted. -/
structure Submission (β : Type) where
  number : ℕ
  batch : β
  deriving DecidableEq

/-- `BrokerClient`, and what became of the batches. -/
structure BrokerClient (β : Type) where
  pendingIngest : BoundedQueue (Submission β) := { maximumItems := 256, maximumBytes := 8 * 1024 * 1024 }
  submitted : List (Submission β) := []
  delivered : List (Submission β) := []
  rejected : List (Submission β) := []
  dropped : List (Submission β) := []

namespace BrokerClient

variable {β : Type} (size : β → ℕ)

def queued (c : BrokerClient β) : List (Submission β) := c.pendingIngest.values.map Prod.fst

/-- `enqueue_ingest`; `size` is the length of the encoding. -/
def enqueueIngest (c : BrokerClient β) (submission : Submission β) : BrokerClient β :=
  let (pending, lost) := c.pendingIngest.pushBack submission (size submission.batch)
  { c with pendingIngest := pending, dropped := c.dropped ++ lost }

/-- The loop over the batches that are pending, and whether it came to its end.
`results` are those of the sends to come. -/
def sendPending : ℕ → (ℕ → SendResult) → BrokerClient β → BrokerClient β × Bool
  | 0, _, c => (c, true)
  | n + 1, results, c =>
    match c.pendingIngest.popFront with
    | none => (c, true)
    | some ((batch, bytes), pending) =>
      if results 0 = .accepted then
        sendPending n (fun k => results (k + 1))
          { c with pendingIngest := pending, delivered := c.delivered ++ [batch] }
      else if isRetryable (results 0) then
        let (pending, lost) := pending.pushFront batch bytes
        ({ c with pendingIngest := pending, dropped := c.dropped ++ lost }, false)
      else
        sendPending n (fun k => results (k + 1))
          { c with pendingIngest := pending, rejected := c.rejected ++ [batch] }

/-- The next batch, with its number. -/
def submission (c : BrokerClient β) (input : β) : Submission β := ⟨c.submitted.length, input⟩

def ingest (results : ℕ → SendResult) (input : β) (c : BrokerClient β) : BrokerClient β :=
  let submission := c.submission input
  let count := c.pendingIngest.values.length
  let (c, finished) := sendPending count results c
  let c := { c with submitted := c.submitted ++ [submission] }
  if !finished then c.enqueueIngest size submission
  else if results count = .accepted then { c with delivered := c.delivered ++ [submission] }
  else if isRetryable (results count) then c.enqueueIngest size submission
  else { c with rejected := c.rejected ++ [submission] }

def flushPendingIngest (results : ℕ → SendResult) (c : BrokerClient β) : BrokerClient β :=
  (sendPending c.pendingIngest.values.length results c).1

end BrokerClient

inductive IngestCall (β : Type)
  | ingest (results : ℕ → SendResult) (input : β)
  | flushPendingIngest (results : ℕ → SendResult)

namespace BrokerClient

variable {β : Type} (size : β → ℕ)

def next (c : BrokerClient β) : IngestCall β → BrokerClient β
  | .ingest results input => c.ingest size results input
  | .flushPendingIngest results => c.flushPendingIngest results

/-! ### Where a batch is -/

/-- Every batch is in one place, in the order of submission, and the queue is within its bounds. -/
structure Accounted (c : BrokerClient β) : Prop where
  numbered : c.submitted.map Submission.number = List.range c.submitted.length
  one_place : (c.delivered ++ c.rejected ++ c.dropped ++ c.queued).Perm c.submitted
  in_order : (c.delivered ++ c.queued).Sublist c.submitted
  bounded : c.pendingIngest.Bounded
  sizes : ∀ e ∈ c.pendingIngest.values, e.2 = size e.1.batch
  items : c.pendingIngest.maximumItems = 256
  bytes : c.pendingIngest.maximumBytes = 8 * 1024 * 1024

/-- What a call drops: a batch that is larger than the queue, or the oldest of those
that are pending still, for one that takes its place behind the others. -/
def DropsOldest (c c' : BrokerClient β) : Prop :=
  ∃ settled pending lost, c.queued = settled ++ pending ∧ c'.dropped = c.dropped ++ lost ∧
    (lost = [] ∨
      (∃ submission, lost = [submission] ∧ c.pendingIngest.maximumBytes < size submission.batch ∧
        c'.queued = pending) ∨
      ∃ kept submission, pending = lost ++ kept ∧ c'.queued = kept ++ [submission])

variable {size} {c : BrokerClient β}

theorem Accounted.limits (h : c.Accounted size) : c.pendingIngest.Limits := by
  constructor
  · rw [h.items]
    decide
  · rw [h.bytes]
    decide

theorem Accounted.start : ({} : BrokerClient β).Accounted size where
  numbered := rfl
  one_place := .nil
  in_order := .slnil
  bounded := ⟨Nat.zero_le _, Nat.zero_le _, rfl⟩
  sizes := nofun
  items := rfl
  bytes := rfl

/-- The head of the queue is done with. -/
theorem Accounted.settle (h : c.Accounted size) {batch : Submission β} {bytes : ℕ}
    {pending : BoundedQueue (Submission β)} (hpop : c.pendingIngest.popFront = some ((batch, bytes), pending)) :
    c.queued = batch :: pending.values.map Prod.fst ∧
      ({ c with pendingIngest := pending, delivered := c.delivered ++ [batch] }).Accounted size ∧
      ({ c with pendingIngest := pending, rejected := c.rejected ++ [batch] }).Accounted size := by
  unfold BoundedQueue.popFront at hpop
  rcases hvalues : c.pendingIngest.values with - | ⟨⟨value, size'⟩, rest⟩
  · rw [hvalues] at hpop
    cases hpop
  rw [hvalues] at hpop
  obtain ⟨hentry, rfl⟩ := Prod.mk.inj (Option.some.inj hpop)
  obtain ⟨rfl, rfl⟩ := Prod.mk.inj hentry
  have hqueued : c.queued = value :: rest.map Prod.fst := by
    rw [queued, hvalues, List.map_cons]
  have hitems := h.bounded.items
  have hle := h.bounded.bytes_le
  have heq := h.bounded.bytes_eq
  rw [hvalues] at hitems heq
  have hsum : c.pendingIngest.bytes - size' = BoundedQueue.sizes rest := by
    rw [heq, BoundedQueue.sizes, List.map_cons, List.sum_cons, Nat.add_sub_cancel_left, BoundedQueue.sizes]
  have hbounded : BoundedQueue.Bounded
      { c.pendingIngest with values := rest, bytes := c.pendingIngest.bytes - size' } :=
    ⟨(Nat.le_succ _).trans hitems, (Nat.sub_le _ _).trans hle, hsum⟩
  have hsizes : ∀ e ∈ rest, e.2 = size e.1.batch := by
    intro e he
    exact h.sizes e (hvalues ▸ List.mem_cons_of_mem _ he)
  have horder := h.in_order
  have hplace := h.one_place
  rw [hqueued] at horder hplace
  refine ⟨hqueued, ⟨h.numbered, ?_, ?_, hbounded, hsizes, h.items, h.bytes⟩,
    ⟨h.numbered, ?_, ?_, hbounded, hsizes, h.items, h.bytes⟩⟩
  · refine List.Perm.trans ?_ hplace
    show (c.delivered ++ [value] ++ c.rejected ++ c.dropped ++ rest.map Prod.fst).Perm _
    simp only [List.append_assoc, List.singleton_append]
    refine List.Perm.append_left _ ?_
    rw [← List.append_assoc, ← List.append_assoc]
    exact List.perm_middle.symm
  · show (c.delivered ++ [value] ++ rest.map Prod.fst).Sublist _
    rw [List.append_assoc]
    exact horder
  · refine List.Perm.trans ?_ hplace
    show (c.delivered ++ (c.rejected ++ [value]) ++ c.dropped ++ rest.map Prod.fst).Perm _
    simp only [List.append_assoc, List.singleton_append]
    refine List.Perm.append_left _ (List.Perm.append_left _ ?_)
    exact List.perm_middle.symm
  · exact (List.Sublist.append_left (List.sublist_cons_self _ _) _).trans horder

/-- Sending what is pending drops nothing, and leaves the later batches of the queue. -/
theorem Accounted.sendPending (h : c.Accounted size) (n : ℕ) (results : ℕ → SendResult) :
    (c.sendPending n results).1.Accounted size ∧ (c.sendPending n results).1.dropped = c.dropped ∧
      (c.sendPending n results).1.submitted = c.submitted ∧
      ((c.sendPending n results).2 = true → c.pendingIngest.values.length ≤ n →
        (c.sendPending n results).1.queued = []) ∧
      ∃ settled, c.queued = settled ++ (c.sendPending n results).1.queued := by
  induction n generalizing c results with
  | zero =>
    refine ⟨h, rfl, rfl, fun _ hlength => ?_, [], rfl⟩
    show c.queued = []
    rw [queued, List.length_eq_zero_iff.mp (Nat.le_zero.mp hlength), List.map_nil]
  | succ n ih =>
    rcases hpop : c.pendingIngest.popFront with - | ⟨⟨batch, bytes⟩, pending⟩
    · rw [BrokerClient.sendPending, hpop]
      refine ⟨h, rfl, rfl, fun _ _ => ?_, [], rfl⟩
      show c.queued = []
      rw [BoundedQueue.popFront] at hpop
      rcases hvalues : c.pendingIngest.values with - | ⟨entry, rest⟩
      · rw [queued, hvalues, List.map_nil]
      · rw [hvalues] at hpop
        cases hpop
    · obtain ⟨hqueued, hdelivered, hrejected⟩ := h.settle hpop
      have hlength : c.pendingIngest.values.length = pending.values.length + 1 := by
        have hmap := congrArg List.length hqueued
        rwa [queued, List.length_map, List.length_cons, List.length_map] at hmap
      by_cases haccepted : results 0 = .accepted
      · obtain ⟨hkept, hdropped, hsubmitted, hend, settled, hsettled⟩ := ih hdelivered fun k => results (k + 1)
        rw [BrokerClient.sendPending, hpop]
        dsimp only
        rw [if_pos haccepted]
        refine ⟨hkept, hdropped, hsubmitted, fun hfinished hle => hend hfinished ?_, batch :: settled, ?_⟩
        · exact Nat.le_of_succ_le_succ (hlength.symm.trans_le hle)
        · rw [hqueued, List.cons_append]
          exact congrArg _ hsettled
      · by_cases hretry : isRetryable (results 0) = true
        · -- the head goes back to its place
          obtain ⟨hlost, hvalues, hbytes, hmaxItems, hmaxBytes⟩ :=
            BoundedQueue.pushFront_popFront h.bounded h.limits hpop
          rw [BrokerClient.sendPending, hpop]
          dsimp only
          rw [if_neg haccepted, if_pos hretry]
          have hsame : (pending.pushFront batch bytes).1.values.map Prod.fst = c.queued := by
            rw [hvalues, queued]
          refine ⟨⟨h.numbered, ?_, ?_, ⟨?_, ?_, ?_⟩, ?_, hmaxItems.trans h.items, hmaxBytes.trans h.bytes⟩,
            ?_, rfl, nofun, [], hsame.symm⟩
          · show (c.delivered ++ c.rejected ++ (c.dropped ++ (pending.pushFront batch bytes).2) ++
              (pending.pushFront batch bytes).1.values.map Prod.fst).Perm _
            rw [hlost, List.append_nil, hsame]
            exact h.one_place
          · show (c.delivered ++ (pending.pushFront batch bytes).1.values.map Prod.fst).Sublist _
            rw [hsame]
            exact h.in_order
          · rw [hvalues, hmaxItems]
            exact h.bounded.items
          · rw [hbytes, hmaxBytes]
            exact h.bounded.bytes_le
          · rw [hbytes, hvalues]
            exact h.bounded.bytes_eq
          · rw [hvalues]
            exact h.sizes
          · show c.dropped ++ (pending.pushFront batch bytes).2 = _
            rw [hlost, List.append_nil]
        · obtain ⟨hkept, hdropped, hsubmitted, hend, settled, hsettled⟩ := ih hrejected fun k => results (k + 1)
          rw [BrokerClient.sendPending, hpop]
          dsimp only
          rw [if_neg haccepted, if_neg hretry]
          refine ⟨hkept, hdropped, hsubmitted, fun hfinished hle => hend hfinished ?_, batch :: settled, ?_⟩
          · exact Nat.le_of_succ_le_succ (hlength.symm.trans_le hle)
          · rw [hqueued, List.cons_append]
            exact congrArg _ hsettled

/-- The number of the next batch is the count of those before it. -/
theorem Accounted.numbered_next (h : c.Accounted size) (input : β) :
    (c.submitted ++ [c.submission input]).map Submission.number =
      List.range (c.submitted ++ [c.submission input]).length := by
  rw [List.map_append, h.numbered, List.length_append, List.length_singleton, List.range_succ]
  rfl

/-- One more among those that are done with, wherever it is put. -/
theorem Accounted.perm_next (h : c.Accounted size) (input : β) {l l' : List (Submission β)}
    (hl : l ++ l' = c.delivered ++ c.rejected ++ c.dropped ++ c.queued) :
    (l ++ [c.submission input] ++ l').Perm (c.submitted ++ [c.submission input]) := by
  rw [List.append_assoc, List.singleton_append]
  refine List.perm_middle.trans ?_
  rw [hl]
  exact (List.Perm.cons _ h.one_place).trans (List.perm_append_singleton _ _).symm

/-- A batch that is sent at once is the last of those delivered. -/
theorem Accounted.deliver (h : c.Accounted size) (hempty : c.queued = []) (input : β) :
    ({ c with
       submitted := c.submitted ++ [c.submission input]
       delivered := c.delivered ++ [c.submission input] }).Accounted size := by
  have horder := h.in_order
  rw [hempty, List.append_nil] at horder
  refine ⟨h.numbered_next input, ?_, ?_, h.bounded, h.sizes, h.items, h.bytes⟩
  · show (c.delivered ++ [c.submission input] ++ c.rejected ++ c.dropped ++ c.queued).Perm _
    rw [List.append_assoc, List.append_assoc]
    refine h.perm_next input ?_
    rw [← List.append_assoc, ← List.append_assoc]
  · show (c.delivered ++ [c.submission input] ++ c.queued).Sublist _
    rw [hempty, List.append_nil]
    exact horder.append_right _

/-- A batch that is refused for good is sent no more. -/
theorem Accounted.reject (h : c.Accounted size) (input : β) :
    ({ c with
       submitted := c.submitted ++ [c.submission input]
       rejected := c.rejected ++ [c.submission input] }).Accounted size := by
  refine ⟨h.numbered_next input, ?_, ?_, h.bounded, h.sizes, h.items, h.bytes⟩
  · show (c.delivered ++ (c.rejected ++ [c.submission input]) ++ c.dropped ++ c.queued).Perm _
    rw [← List.append_assoc, List.append_assoc]
    refine h.perm_next input ?_
    rw [← List.append_assoc]
  · exact h.in_order.trans (List.sublist_append_left _ _)

/-- A batch is queued behind the others, for which the oldest make room, or it is dropped. -/
theorem Accounted.enqueue (h : c.Accounted size) (input : β) {pending : BoundedQueue (Submission β)}
    {lost : List (Submission β)}
    (hpush : c.pendingIngest.pushBack (c.submission input) (size input) = (pending, lost)) :
    ({ c with
       submitted := c.submitted ++ [c.submission input]
       pendingIngest := pending
       dropped := c.dropped ++ lost }).Accounted size ∧
      ((lost = [c.submission input] ∧ c.pendingIngest.maximumBytes < size input ∧
          pending.values.map Prod.fst = c.queued) ∨
        ∃ kept, c.queued = lost ++ kept ∧ pending.values.map Prod.fst = kept ++ [c.submission input]) := by
  obtain ⟨hmaxItems, hmaxBytes⟩ := c.pendingIngest.pushBack_maxima (c.submission input) (size input)
  have hspec := BoundedQueue.pushBack_spec h.bounded h.limits (c.submission input) (size input)
  rw [hpush] at hmaxItems hmaxBytes hspec
  dsimp only at hmaxItems hmaxBytes hspec
  have hnumbered := h.numbered_next input
  rcases hspec with ⟨hlarge, rfl, hvalues, hbytes⟩ | ⟨gone, kept, hvalues, rfl, hpushed, hbounded⟩
  · -- the queue stays as it is
    have hqueued : pending.values.map Prod.fst = c.queued := by
      rw [hvalues, queued]
    have hsame : pending.Bounded := by
      constructor
      · rw [hmaxItems, hvalues]
        exact h.bounded.items
      · rw [hmaxBytes, hbytes]
        exact h.bounded.bytes_le
      · rw [hbytes, hvalues]
        exact h.bounded.bytes_eq
    refine ⟨⟨hnumbered, ?_, ?_, hsame, ?_, hmaxItems.trans h.items, hmaxBytes.trans h.bytes⟩,
      .inl ⟨rfl, hlarge, hqueued⟩⟩
    · show (c.delivered ++ c.rejected ++ (c.dropped ++ [c.submission input]) ++ pending.values.map Prod.fst).Perm _
      rw [hqueued, ← List.append_assoc]
      exact h.perm_next input rfl
    · show (c.delivered ++ pending.values.map Prod.fst).Sublist _
      rw [hqueued]
      exact h.in_order.trans (List.sublist_append_left _ _)
    · show ∀ e ∈ pending.values, _
      rw [hvalues]
      exact h.sizes
  · have hqueued : pending.values.map Prod.fst = kept.map Prod.fst ++ [c.submission input] := by
      rw [hpushed, List.map_append]
      rfl
    have hbefore : c.queued = gone.map Prod.fst ++ kept.map Prod.fst := by
      rw [queued, hvalues, List.map_append]
    refine ⟨⟨hnumbered, ?_, ?_, hbounded, ?_, hmaxItems.trans h.items, hmaxBytes.trans h.bytes⟩,
      .inr ⟨kept.map Prod.fst, hbefore, hqueued⟩⟩
    · show (c.delivered ++ c.rejected ++ (c.dropped ++ gone.map Prod.fst) ++ pending.values.map Prod.fst).Perm _
      rw [hqueued, ← List.append_assoc, ← List.append_nil (_ ++ [c.submission input])]
      refine h.perm_next input ?_
      rw [hbefore, List.append_nil]
      simp only [List.append_assoc]
    · show (c.delivered ++ pending.values.map Prod.fst).Sublist _
      have horder := h.in_order
      rw [hbefore] at horder
      rw [hqueued, ← List.append_assoc]
      refine List.Sublist.append_right (List.Sublist.trans ?_ horder) _
      exact List.Sublist.append_left (List.sublist_append_right _ _) _
    · show ∀ e ∈ pending.values, _
      rw [hpushed]
      intro e he
      rcases List.mem_append.mp he with he | he
      · exact h.sizes e (hvalues ▸ List.mem_append_right _ he)
      · obtain rfl := List.mem_singleton.mp he
        rfl

theorem enqueueIngest_eq {d : BrokerClient β} {submission : Submission β} {pending : BoundedQueue (Submission β)}
    {lost : List (Submission β)}
    (hpush : d.pendingIngest.pushBack submission (size submission.batch) = (pending, lost)) :
    BrokerClient.enqueueIngest size d submission =
      { d with pendingIngest := pending, dropped := d.dropped ++ lost } := by
  rw [BrokerClient.enqueueIngest, hpush]

/-- What a new batch that waits comes to. -/
theorem Accounted.enqueueIngest (h : c.Accounted size) (input : β) {c' : BrokerClient β}
    (hc' : c' = BrokerClient.enqueueIngest size
      { c with submitted := c.submitted ++ [c.submission input] } (c.submission input)) :
    c'.Accounted size ∧ DropsOldest size c c' := by
  rcases hpush : c.pendingIngest.pushBack (c.submission input) (size input) with ⟨pending, lost⟩
  obtain ⟨hkept, hlost⟩ := h.enqueue input hpush
  have heq : c' = { c with
      submitted := c.submitted ++ [c.submission input]
      pendingIngest := pending
      dropped := c.dropped ++ lost } := by
    rw [hc']
    exact enqueueIngest_eq (d := { c with submitted := c.submitted ++ [c.submission input] }) hpush
  rw [heq]
  refine ⟨hkept, [], c.queued, lost, rfl, rfl, .inr ?_⟩
  rcases hlost with ⟨hone, hlarge, hqueued⟩ | ⟨kept, hbefore, hqueued⟩
  · exact .inl ⟨c.submission input, hone, hlarge, hqueued⟩
  · exact .inr ⟨kept, c.submission input, hbefore, hqueued⟩

/-- What is dropped after some batches are sent is dropped from those that are left. -/
theorem DropsOldest.of_settled {d c' : BrokerClient β} {settled : List (Submission β)}
    (hqueued : c.queued = settled ++ d.queued) (hdropped : d.dropped = c.dropped)
    (hmax : d.pendingIngest.maximumBytes = c.pendingIngest.maximumBytes) (h : DropsOldest size d c') :
    DropsOldest size c c' := by
  obtain ⟨before, pending, lost, hd, hlost, hcases⟩ := h
  refine ⟨settled ++ before, pending, lost, ?_, ?_, ?_⟩
  · rw [hqueued, hd, List.append_assoc]
  · rw [hlost, hdropped]
  · rw [← hmax]
    exact hcases

/-- One call. -/
theorem Accounted.next (h : c.Accounted size) (e : IngestCall β) :
    (c.next size e).Accounted size ∧ DropsOldest size c (c.next size e) := by
  have hquiet : ∀ d : BrokerClient β, d.dropped = c.dropped → DropsOldest size c d := fun d hd =>
    ⟨c.queued, [], [], (List.append_nil _).symm, hd.trans (List.append_nil _).symm, .inl rfl⟩
  cases e with
  | flushPendingIngest results =>
    obtain ⟨hkept, hdropped, -⟩ := h.sendPending c.pendingIngest.values.length results
    exact ⟨hkept, hquiet _ hdropped⟩
  | ingest results input =>
    obtain ⟨hkept, hdropped, hsubmitted, hend, settled, hsettled⟩ :=
      h.sendPending c.pendingIngest.values.length results
    show (c.ingest size results input).Accounted size ∧ DropsOldest size c (c.ingest size results input)
    unfold ingest
    rcases hsent : c.sendPending c.pendingIngest.values.length results with ⟨d, finished⟩
    rw [hsent] at hkept hdropped hsubmitted hend hsettled
    extract_lets submission count
    rw [show c.sendPending count results = (d, finished) from hsent]
    dsimp only at hkept hdropped hsubmitted hend hsettled ⊢
    have hsubmission : submission = d.submission input := by
      show Submission.mk c.submitted.length input = ⟨d.submitted.length, input⟩
      rw [hsubmitted]
    have hmax : d.pendingIngest.maximumBytes = c.pendingIngest.maximumBytes := hkept.bytes.trans h.bytes.symm
    rw [hsubmission]
    have hwaits := hkept.enqueueIngest input rfl
    split
    · exact ⟨hwaits.1, hwaits.2.of_settled hsettled hdropped hmax⟩
    · next hfinished =>
      have hempty : d.queued = [] := by
        refine hend ?_ le_rfl
        rwa [Bool.not_eq_true', Bool.not_eq_false] at hfinished
      split
      · exact ⟨hkept.deliver hempty input, hquiet _ hdropped⟩
      · split
        · exact ⟨hwaits.1, hwaits.2.of_settled hsettled hdropped hmax⟩
        · exact ⟨hkept.reject input, hquiet _ hdropped⟩

/-- After any calls every batch is in one place, and the next call drops the oldest only. -/
theorem batches_accounted (h : Reached (BrokerClient.next size) (fun _ _ => True) {} c) :
    c.Accounted size ∧ ∀ e, DropsOldest size c (c.next size e) := by
  have hkept : c.Accounted size := h.invariant .start fun _ e hs _ => (hs.next e).1
  exact ⟨hkept, fun e => (hkept.next e).2⟩

/-- Two batches of five megabytes that could not be sent: the first makes room for the second. -/
def outage : List (IngestCall ℕ) :=
  [.ingest (fun _ => .failed) 5000000, .ingest (fun _ => .refused 503) 5000001]

theorem outage_accounted :
    (outage.foldl (BrokerClient.next id) {}).dropped = [⟨0, 5000000⟩] ∧
      (outage.foldl (BrokerClient.next id) {}).Accounted id ∧
      ∀ e, DropsOldest id (outage.foldl (BrokerClient.next id) {})
        ((outage.foldl (BrokerClient.next id) {}).next id e) :=
  ⟨by decide, batches_accounted (Reached.init.foldl (AllOk.of_forall (fun _ _ _ => trivial) _))⟩

end BrokerClient

end NativeAgent
