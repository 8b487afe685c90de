/-
LiveProbe/CapturePump.lean

How the capture of a paused process is driven: `processNext` and `step` of
`capture.ts`, with an inspector that calls back at once or later.

The calls in progress are a stack.  A function that is on it does what its
`Call` says once it is on top.  The inspector decides what happens when it is
asked for properties: it calls back before it returns, or it returns and calls
back when nothing runs any more.

A callback that finds the loop of `processNext` running flags it and returns, so
the calls never nest deeper than one turn of the loop (`Shaped`).  Every step
lowers `Pump.fuel`, so a capture ends however the callbacks are mixed.
-/
import LiveProbe.PauseCapture
import LiveProbe.Transition

open JsString

namespace PauseCapture

/-! ### Calls -/

/-- What a function in progress does next. -/
inductive Call
  /-- `processNext`, at its first line -/
  | processNext
  /-- the body of the loop of `processNext` -/
  | again
  /-- the condition of the loop -/
  | loop
  /-- `step` -/
  | step
  /-- `getProperties`, which is to call back or to return -/
  | getProperties (task : CaptureTask)
  /-- the callback of `getProperties` -/
  | callback (task : CaptureTask) (answer : Properties)
  /-- `finish` -/
  | finish
  /-- a function whose last call has returned -/
  | return

/-- A capture in progress; `pending` is a request that is to be called back later,
`results` is what the capture has called back with. -/
structure Pump where
  capture : Capture
  pumping : Bool := false
  pumpAgain : Bool := false
  calls : List Call
  pending : Option CaptureTask := none
  results : List (Option JsString × RawCapture) := []

/-- What happens next: a function goes on, or the inspector decides. -/
inductive PumpEvent
  | run
  | answerNow (answer : Properties)
  | answerLater
  | callBack (answer : Properties)

/-- Whether the answer gives an array a length that no array has: the assignment throws. -/
def Capture.throws (task : CaptureTask) (answer : Properties) (c : Capture) : Bool :=
  c.isArray task.target &&
    match answer with
    | .error _ => false
    | .ok descriptors => (describedLength descriptors).any fun length => 2 ^ 32 ≤ length

namespace Pump

variable (options : CaptureOptions) (callFrames : List CallFrameDescriptor)

/-- `capturePaused` at its call of `processNext` -/
def start : Pump where
  capture := startCapture options callFrames
  calls := [.processNext, .return]

/-- The function on top goes on. -/
def run (p : Pump) : Option Pump :=
  match p.calls with
  | .processNext :: rest =>
    if p.pumping then some { p with pumpAgain := true, calls := rest }
    else some { p with pumping := true, calls := .again :: rest }
  | .again :: rest => some { p with pumpAgain := false, calls := .step :: .loop :: rest }
  | .loop :: rest =>
    if p.pumpAgain then some { p with calls := .again :: rest }
    else some { p with pumping := false, calls := rest }
  | .step :: rest =>
    match p.capture.tasks with
    | [] => some { p with calls := .finish :: .return :: rest }
    | task :: tasks =>
      some { p with capture := p.capture.shift task tasks, calls := .getProperties task :: .return :: rest }
  | .callback task answer :: rest =>
    -- an exception leaves every function, and the `finally` of the loop
    if p.capture.throws task answer then some { p with pumping := false, calls := [] }
    else
      some { p with capture := p.capture.receive options task answer, calls := .processNext :: .return :: rest }
  | .finish :: rest =>
    some { p with
      calls := rest
      results := p.results ++ [(p.capture.firstError, PauseCapture.finish callFrames p.capture)] }
  | .return :: rest => some { p with calls := rest }
  | .getProperties _ :: _ | [] => none

/-- One event, when it can happen. -/
def next? (p : Pump) : PumpEvent → Option Pump
  | .run => p.run options callFrames
  | .answerNow answer =>
    match p.calls with
    | .getProperties task :: rest => some { p with calls := .callback task answer :: .return :: rest }
    | _ => none
  | .answerLater =>
    match p.calls with
    | .getProperties task :: rest => some { p with pending := some task, calls := rest }
    | _ => none
  | .callBack answer =>
    match p.calls, p.pending with
    | [], some task => some { p with pending := none, calls := [.callback task answer] }
    | _, _ => none

def next (p : Pump) (e : PumpEvent) : Pump := (p.next? options callFrames e).getD p

/-- Whether an event can happen: an answer gives arrays lengths that arrays can have. -/
def accepts (p : Pump) (e : PumpEvent) : Bool :=
  (p.next? options callFrames e).isSome &&
    match e, p.calls, p.pending with
    | .answerNow answer, .getProperties task :: _, _ => !p.capture.throws task answer
    | .callBack answer, _, some task => !p.capture.throws task answer
    | _, _, _ => true

end Pump

/-! ### What is asked for -/

section

variable {options : CaptureOptions} {frames : List CallFrameDescriptor} {c c' : Capture} {task : CaptureTask}

/-- The objects asked for and those that are to be, each with the container it is read into. -/
def Capture.asked (c : Capture) : List (ℕ × JsString) :=
  c.requests ++ c.tasks.map fun task => (task.target, task.objectId)

/-- The object is a scope of a captured frame. -/
def IsScope (frames : List CallFrameDescriptor) (a : ℕ × JsString) : Prop :=
  ∃ frame, frames[a.1]? = some frame ∧ a.2 ∈ frameScopeIds frame

/-- One object is asked for, or one scope of two frames. -/
def Apart (frames : List CallFrameDescriptor) (a b : ℕ × JsString) : Prop :=
  a.2 = b.2 → a.1 ≠ b.1 ∧ IsScope frames a ∧ IsScope frames b

/-- No object is asked for twice, but for the scopes that frames share. -/
structure Asked (frames : List CallFrameDescriptor) (c : Capture) : Prop where
  apart : c.asked.Pairwise (Apart frames)
  materialized : ∀ a ∈ c.asked, c.materializedObjects.has a.2 = true

/-- What a descriptor adds to the queue is no object that was met before. -/
theorem Capture.addDescriptor_tasks (task : CaptureTask) (c : Capture) (descriptor : PropertyDescriptor) :
    (c.addDescriptor options task descriptor).requests = c.requests ∧
      ((c.addDescriptor options task descriptor).tasks = c.tasks ∧
          (c.addDescriptor options task descriptor).materializedObjects = c.materializedObjects ∨
        ∃ objectId, c.materializedObjects.get? objectId = none ∧
          (c.addDescriptor options task descriptor).tasks =
            c.tasks ++ [⟨task.depth + 1, objectId, c.cells.length, false⟩] ∧
          (c.addDescriptor options task descriptor).materializedObjects =
            c.materializedObjects.set objectId c.cells.length) := by
  unfold addDescriptor
  dsimp only
  split_ifs
  · exact ⟨rfl, .inl ⟨rfl, rfl⟩⟩
  · exact ⟨rfl, .inl ⟨rfl, rfl⟩⟩
  · exact ⟨rfl, .inl ⟨rfl, rfl⟩⟩
  · split
    · exact ⟨rfl, .inl ⟨rfl, rfl⟩⟩
    · split
      · exact ⟨rfl, .inl ⟨rfl, rfl⟩⟩
      · rename_i objectId _
        unfold addObject
        split
        · exact ⟨rfl, .inl ⟨rfl, rfl⟩⟩
        · rename_i hnew
          dsimp only
          split_ifs
          · exact ⟨rfl, .inl ⟨rfl, rfl⟩⟩
          · exact ⟨rfl, .inr ⟨objectId, hnew, rfl, rfl⟩⟩
          · exact ⟨rfl, .inl ⟨rfl, rfl⟩⟩

theorem Asked.of_eq (h : Asked frames c) (hr : c'.requests = c.requests) (ht : c'.tasks = c.tasks)
    (hm : c'.materializedObjects = c.materializedObjects) : Asked frames c' := by
  have hasked : c'.asked = c.asked := by rw [Capture.asked, Capture.asked, hr, ht]
  refine ⟨?_, ?_⟩
  · rw [hasked]
    exact h.apart
  · rw [hasked, hm]
    exact h.materialized

/-- An object that is new to the capture, or a scope that is new to its frame, is queued. -/
theorem Asked.queue (h : Asked frames c) (hr : c'.requests = c.requests) (ht : c'.tasks = c.tasks ++ [task])
    (hm : c'.materializedObjects = c.materializedObjects.set task.objectId task.target)
    (hnew : ∀ a ∈ c.asked, Apart frames a (task.target, task.objectId)) : Asked frames c' := by
  have hasked : c'.asked = c.asked ++ [(task.target, task.objectId)] := by
    rw [Capture.asked, Capture.asked, hr, ht, List.map_append, List.append_assoc]
    rfl
  refine ⟨?_, fun a ha => ?_⟩
  · rw [hasked, List.pairwise_append]
    refine ⟨h.apart, List.pairwise_singleton _ _, fun a ha b hb => ?_⟩
    rw [List.mem_singleton.mp hb]
    exact hnew a ha
  · rw [hm, JsMap.has, JsMap.get?_set]
    split
    · rfl
    · next hne =>
      rw [hasked] at ha
      rcases List.mem_append.mp ha with ha | ha
      · exact h.materialized a ha
      · exact absurd (by rw [List.mem_singleton.mp ha]) hne

theorem Asked.addDescriptor (h : Asked frames c) (task : CaptureTask) (descriptor : PropertyDescriptor) :
    Asked frames (c.addDescriptor options task descriptor) := by
  obtain ⟨hr, ⟨ht, hm⟩ | ⟨objectId, hnew, ht, hm⟩⟩ := @Capture.addDescriptor_tasks options task c descriptor
  · exact h.of_eq hr ht hm
  · refine h.queue hr ht hm fun a ha hid => ?_
    have hhas := h.materialized a ha
    have hid : a.2 = objectId := hid
    rw [hid, JsMap.has, hnew] at hhas
    cases hhas

/-- An answer keeps it. -/
theorem Asked.receive (h : Asked frames c) (task : CaptureTask) (answer : Properties) :
    Asked frames (c.receive options task answer) := by
  cases answer with
  | error message => exact h.of_eq rfl rfl rfl
  | ok descriptors =>
    obtain ⟨f, hf⟩ := Capture.describe_eq task descriptors c
    have hdescribed : Asked frames (c.describe task descriptors) := by
      rw [hf]
      exact h.of_eq rfl rfl rfl
    show Asked frames (List.foldl _ _ _)
    generalize selectedDescriptors options descriptors (c.isArray task.target) = selected
    generalize c.describe task descriptors = c₁ at hdescribed
    induction selected generalizing c₁ with
    | nil => exact hdescribed
    | cons d selected ih => exact ih _ (hdescribed.addDescriptor task d)

theorem Capture.receive_requests (task : CaptureTask) (answer : Properties) (c : Capture) :
    (c.receive options task answer).requests = c.requests := by
  cases answer with
  | error message => rfl
  | ok descriptors =>
    obtain ⟨f, hf⟩ := Capture.describe_eq task descriptors c
    have hdescribed : (c.describe task descriptors).requests = c.requests := by
      rw [hf]
      rfl
    show Capture.requests (List.foldl _ _ _) = _
    generalize selectedDescriptors options descriptors (c.isArray task.target) = selected
    generalize c.describe task descriptors = c₁ at hdescribed
    induction selected generalizing c₁ with
    | nil => exact hdescribed
    | cons d selected ih => exact ih _ ((Capture.addDescriptor_tasks task c₁ d).1.trans hdescribed)

/-- The head of the queue is asked for. -/
theorem Asked.shift (h : Asked frames c) {tasks : List CaptureTask} (ht : c.tasks = task :: tasks) :
    Asked frames (c.shift task tasks) := by
  have hasked : (c.shift task tasks).asked = c.asked := by
    rw [Capture.asked, Capture.asked, ht, List.map_cons]
    show (c.requests ++ [_]) ++ _ = _
    rw [List.append_assoc]
    rfl
  refine ⟨?_, ?_⟩
  · rw [hasked]
    exact h.apart
  · rw [hasked]
    exact h.materialized

/-- The scopes of the frames before `k`, and of the frame `k` those that are not in `ids`. -/
structure Seeded (frames : List CallFrameDescriptor) (k : ℕ) (ids : List JsString) (c : Capture) : Prop
    extends Asked frames c where
  scope : ∀ a ∈ c.asked, IsScope frames a
  within : ∀ a ∈ c.asked, a.1 ≤ k ∧ (a.1 = k → a.2 ∉ ids)

theorem Seeded.of_eq {k : ℕ} {ids : List JsString} (h : Seeded frames k ids c) (hr : c'.requests = c.requests)
    (ht : c'.tasks = c.tasks) (hm : c'.materializedObjects = c.materializedObjects) : Seeded frames k ids c' := by
  have hasked : c'.asked = c.asked := by rw [Capture.asked, Capture.asked, hr, ht]
  exact ⟨h.toAsked.of_eq hr ht hm, by rw [hasked]; exact h.scope, by rw [hasked]; exact h.within⟩

/-- A frame queues each of its scopes once. -/
theorem Seeded.addScopes {k : ℕ} {frame : CallFrameDescriptor} (hframe : frames[k]? = some frame) {ids : List JsString}
    (hids : ids.Nodup) (hsub : ∀ id ∈ ids, id ∈ frameScopeIds frame) (state : Capture × ℕ)
    (h : Seeded frames k ids state.1) : Seeded frames k [] (ids.foldl (addScope options k) state).1 := by
  induction ids generalizing state with
  | nil => exact h
  | cons objectId ids ih =>
    obtain ⟨hfirst, hids⟩ := List.nodup_cons.mp hids
    refine ih hids (fun id hid => hsub id (List.mem_cons_of_mem _ hid)) _ ?_
    unfold addScope
    split
    · exact ⟨h.toAsked, h.scope, fun a ha => ⟨(h.within a ha).1, fun hk hmem =>
        (h.within a ha).2 hk (List.mem_cons_of_mem _ hmem)⟩⟩
    · have hscope : IsScope frames (k, objectId) := ⟨frame, hframe, hsub objectId List.mem_cons_self⟩
      have hasked : ∀ a ∈ state.1.requests ++
          (state.1.tasks ++ [(⟨0, objectId, k, 0 < state.2⟩ : CaptureTask)]).map
            fun task => (task.target, task.objectId), a ∈ state.1.asked ∨ a = (k, objectId) := by
        intro a ha
        rw [List.map_append, ← List.append_assoc] at ha
        exact (List.mem_append.mp ha).imp_right List.mem_singleton.mp
      refine ⟨h.toAsked.queue rfl rfl rfl fun a ha hid => ?_, fun a ha => ?_, fun a ha => ?_⟩
      · refine ⟨fun hk => (h.within a ha).2 hk ?_, h.scope a ha, hscope⟩
        rw [hid]
        exact List.mem_cons_self
      · rcases hasked a ha with ha | rfl
        · exact h.scope a ha
        · exact hscope
      · rcases hasked a ha with ha | rfl
        · exact ⟨(h.within a ha).1, fun hk hmem => (h.within a ha).2 hk (List.mem_cons_of_mem _ hmem)⟩
        · exact ⟨le_rfl, fun _ => hfirst⟩

theorem Seeded.addFrame {k : ℕ} {frame : CallFrameDescriptor} (hframe : frames[k]? = some frame)
    (h : Seeded frames k (frameScopeIds frame) c) : Seeded frames k [] (addFrame options c (frame, k)) := by
  unfold PauseCapture.addFrame
  dsimp only
  split
  · next hempty =>
    rw [hempty] at h
    exact h
  · have hscopes : Seeded frames k [] ((frameScopeIds frame).foldl (addScope options k) (c, 0)).1 :=
      Seeded.addScopes hframe (nodup_frameScopeIds frame) (fun _ hid => hid) (c, 0) h
    split
    · exact hscopes.of_eq rfl rfl rfl
    · exact hscopes

/-- A capture starts with each scope of each frame once. -/
theorem asked_startCapture (options : CaptureOptions) (callFrames : List CallFrameDescriptor) :
    Asked (keptFrames options callFrames) (startCapture options callFrames) := by
  have hfold : ∀ (l : List CallFrameDescriptor) (k : ℕ) (c : Capture),
      (∀ i frame, l[i]? = some frame → (keptFrames options callFrames)[k + i]? = some frame) →
      Asked (keptFrames options callFrames) c → (∀ a ∈ c.asked, IsScope (keptFrames options callFrames) a ∧ a.1 < k) →
      Asked (keptFrames options callFrames) ((l.zipIdx k).foldl (addFrame options) c) := by
    intro l
    induction l with
    | nil => exact fun k c _ h _ => h
    | cons frame l ih =>
      intro k c hl h hbefore
      have hframe := hl 0 frame rfl
      have hadded : Seeded (keptFrames options callFrames) k [] (addFrame options c (frame, k)) :=
        Seeded.addFrame hframe ⟨h, fun a ha => (hbefore a ha).1, fun a ha =>
          ⟨(hbefore a ha).2.le, fun hk => absurd hk (hbefore a ha).2.ne⟩⟩
      rw [List.zipIdx_cons, List.foldl_cons]
      refine ih (k + 1) _ (fun i frame' hi => ?_) hadded.toAsked fun a ha =>
        ⟨hadded.scope a ha, Nat.lt_succ_of_le (hadded.within a ha).1⟩
      rw [Nat.add_assoc, Nat.add_comm 1]
      exact hl (i + 1) frame' hi
  refine hfold _ 0 _ (fun i frame hi => by rw [Nat.zero_add]; exact hi) ⟨List.Pairwise.nil, ?_⟩ ?_
  · exact List.forall_mem_nil _
  · exact List.forall_mem_nil _

end

/-! ### The calls -/

/-- The capture waits to be called back, or has called back. -/
def Handed (pending : Option CaptureTask) (results : ℕ) : Prop :=
  pending.isSome = true ∧ results = 0 ∨ pending = none ∧ results = 1

/-- The calls in progress, the two flags of the loop, the request that is to be called
back later and the number of results. -/
inductive Shaped : List Call → Bool → Bool → Option CaptureTask → ℕ → Prop
  /-- `capturePaused` or a callback enters `processNext`. -/
  | entering (pumpAgain : Bool) : Shaped [.processNext, .return] false pumpAgain none 0
  | looping (pumpAgain : Bool) : Shaped [.again, .return] true pumpAgain none 0
  | stepping : Shaped [.step, .loop, .return] true false none 0
  | asking (task : CaptureTask) : Shaped [.getProperties task, .return, .loop, .return] true false none 0
  | answered (task : CaptureTask) (answer : Properties) :
    Shaped [.callback task answer, .return, .return, .loop, .return] true false none 0
  /-- A callback that came at once enters `processNext` again. -/
  | reentering : Shaped [.processNext, .return, .return, .return, .loop, .return] true false none 0
  | flagged (n : ℕ) (h : n ≤ 3) : Shaped (List.replicate n .return ++ [.loop, .return]) true true none 0
  | finishing : Shaped [.finish, .return, .loop, .return] true false none 0
  | leaving (n : ℕ) (h : n ≤ 1) (pending : Option CaptureTask) (results : ℕ) (handed : Handed pending results) :
    Shaped (List.replicate n .return ++ [.loop, .return]) true false pending results
  | left (n : ℕ) (h : n ≤ 1) (pumpAgain : Bool) (pending : Option CaptureTask) (results : ℕ)
    (handed : Handed pending results) : Shaped (List.replicate n .return) false pumpAgain pending results
  /-- A callback that came later. -/
  | resumed (task : CaptureTask) (answer : Properties) (pumpAgain : Bool) :
    Shaped [.callback task answer] false pumpAgain none 0

theorem Shaped.length_le {calls : List Call} {pumping pumpAgain : Bool} {pending : Option CaptureTask} {results : ℕ}
    (h : Shaped calls pumping pumpAgain pending results) : calls.length ≤ 6 := by
  cases h with
  | flagged n hn | leaving n hn =>
    rw [List.length_append, List.length_replicate]
    show n + 2 ≤ 6
    omega
  | left n hn =>
    rw [List.length_replicate]
    omega
  | _ => exact Nat.le_of_ble_eq_true rfl

theorem Shaped.results_le {calls : List Call} {pumping pumpAgain : Bool} {pending : Option CaptureTask} {results : ℕ}
    (h : Shaped calls pumping pumpAgain pending results) : results ≤ 1 := by
  cases h with
  | leaving _ _ _ _ handed | left _ _ _ _ _ handed =>
    rcases handed with ⟨-, rfl⟩ | ⟨-, rfl⟩
    · exact Nat.zero_le _
    · exact le_rfl
  | _ => exact Nat.zero_le _

/-- The inspector is asked within a turn of the loop. -/
theorem Shaped.asked {calls rest : List Call} {task : CaptureTask} {pumping pumpAgain : Bool}
    {pending : Option CaptureTask} {results : ℕ} (h : Shaped calls pumping pumpAgain pending results)
    (hcalls : calls = .getProperties task :: rest) :
    rest = [.return, .loop, .return] ∧ pumping = true ∧ pumpAgain = false ∧ pending = none ∧ results = 0 := by
  cases h with
  | asking =>
    cases hcalls
    exact ⟨rfl, rfl, rfl, rfl, rfl⟩
  | flagged n | leaving n | left n => cases n <;> cases hcalls
  | _ => cases hcalls

/-- Where nothing runs the capture waits, or is done. -/
theorem Shaped.idle {calls : List Call} {pumping pumpAgain : Bool} {pending : Option CaptureTask} {results : ℕ}
    (h : Shaped calls pumping pumpAgain pending results) (hcalls : calls = []) :
    pumping = false ∧ Handed pending results := by
  cases h with
  | flagged n | leaving n => cases n <;> cases hcalls
  | left n hn pumpAgain pending results handed => exact ⟨rfl, handed⟩
  | _ => cases hcalls

namespace Pump

/-- The state of the calls. -/
def IsShaped (p : Pump) : Prop := Shaped p.calls p.pumping p.pumpAgain p.pending p.results.length

/-- What the steps keep of a capture. -/
structure Kept (options : CaptureOptions) (frames : List CallFrameDescriptor) (c : Capture) : Prop where
  bounded : c.Bounded options
  asked : Asked frames c
  counted : c.requests.length = c.visitedObjects

theorem Kept.shift {options : CaptureOptions} {frames : List CallFrameDescriptor} {c : Capture} {task : CaptureTask}
    {tasks : List CaptureTask} (h : Kept options frames c) (ht : c.tasks = task :: tasks) :
    Kept options frames (c.shift task tasks) ∧ c.visitedObjects < options.objectBudget := by
  have hbounded := h.bounded
  unfold Capture.Bounded at hbounded
  rw [ht, List.length_cons] at hbounded
  refine ⟨⟨?_, h.asked.shift ht, ?_⟩, by omega⟩
  · show c.visitedObjects + 1 + tasks.length ≤ _
    omega
  · show (c.requests ++ [_]).length = c.visitedObjects + 1
    rw [List.length_append, h.counted]
    rfl

theorem Kept.receive {options : CaptureOptions} {frames : List CallFrameDescriptor} {c : Capture}
    (h : Kept options frames c) (task : CaptureTask) (answer : Properties) :
    Kept options frames (c.receive options task answer) ∧
      (c.receive options task answer).visitedObjects = c.visitedObjects := by
  obtain ⟨hbounded, hvisited⟩ := h.bounded.receive task answer
  refine ⟨⟨hbounded, h.asked.receive task answer, ?_⟩, hvisited⟩
  rw [Capture.receive_requests, hvisited, h.counted]

/-- What holds throughout a capture. -/
structure Sound (options : CaptureOptions) (callFrames : List CallFrameDescriptor) (p : Pump) : Prop where
  shaped : p.IsShaped
  readable : ∀ task answer, p.calls.head? = some (.callback task answer) → p.capture.throws task answer = false
  kept : Kept options (keptFrames options callFrames) p.capture

/-- The steps a call still takes; a flagged loop takes another turn. -/
def weight (pumpAgain : Bool) : Call → ℕ
  | .return | .finish => 1
  | .loop => if pumpAgain then 7 else 1
  | .step => 3
  | .again => 5
  | .processNext => 8
  | .callback .. => 10
  | .getProperties _ => 12

/-- The steps that are left, at most. -/
def fuel (options : CaptureOptions) (p : Pump) : ℕ :=
  11 * (options.objectBudget - p.capture.visitedObjects) + (p.calls.map (weight p.pumpAgain)).sum +
    if p.pending.isSome then 11 else 0

section

variable {options : CaptureOptions} {callFrames : List CallFrameDescriptor} {p : Pump}

theorem isShaped_of {n : ℕ} (hresults : p.results.length = n)
    (h : Shaped p.calls p.pumping p.pumpAgain p.pending n) : p.IsShaped := by
  rw [IsShaped, hresults]
  exact h

theorem head?_ne_callback (n : ℕ) (task : CaptureTask) (answer : Properties) :
    (List.replicate n Call.return ++ [Call.loop, Call.return]).head? ≠ some (.callback task answer) ∧
      (List.replicate n Call.return).head? ≠ some (.callback task answer) := by
  cases n <;> exact ⟨nofun, nofun⟩

/-- The function on top goes on. -/
theorem Sound.run (h : Sound options callFrames p) {p' : Pump} (hrun : p.run options callFrames = some p') :
    Sound options callFrames p' ∧ p'.fuel options < p.fuel options := by
  obtain ⟨hshaped, hreadable, hkept⟩ := h
  obtain ⟨capture, pumping, pumpAgain, calls, pending, results⟩ := p
  unfold IsShaped at hshaped
  dsimp only at hshaped hreadable hkept
  generalize hresults : results.length = n at hshaped
  cases hshaped with
  | entering =>
    obtain rfl := Option.some.inj hrun
    exact ⟨⟨isShaped_of hresults (.looping _), nofun, hkept⟩, by simp [fuel, weight]⟩
  | looping =>
    obtain rfl := Option.some.inj hrun
    exact ⟨⟨isShaped_of hresults .stepping, nofun, hkept⟩, by simp [fuel, weight]⟩
  | stepping =>
    unfold Pump.run at hrun
    dsimp only at hrun
    split at hrun
    · obtain rfl := Option.some.inj hrun
      exact ⟨⟨isShaped_of hresults .finishing, nofun, hkept⟩, by simp [fuel, weight]⟩
    · next task tasks htasks =>
      obtain rfl := Option.some.inj hrun
      obtain ⟨hshift, hlt⟩ := hkept.shift htasks
      refine ⟨⟨isShaped_of hresults (.asking task), nofun, hshift⟩, ?_⟩
      simp only [fuel, weight, Capture.shift, List.map_cons, List.map_nil, List.sum_cons, List.sum_nil,
        Option.isSome_none, if_false, Bool.false_eq_true]
      omega
  | asking => cases hrun
  | answered task answer =>
    unfold Pump.run at hrun
    dsimp only at hrun
    rw [if_neg (Bool.eq_false_iff.mp (hreadable task answer rfl))] at hrun
    obtain rfl := Option.some.inj hrun
    obtain ⟨hreceived, hvisited⟩ := hkept.receive task answer
    refine ⟨⟨isShaped_of hresults .reentering, nofun, hreceived⟩, ?_⟩
    simp [fuel, weight, hvisited]
  | reentering =>
    obtain rfl := Option.some.inj hrun
    exact ⟨⟨isShaped_of hresults (.flagged 3 le_rfl), nofun, hkept⟩, by simp [fuel, weight]⟩
  | flagged n hn =>
    cases n with
    | zero =>
      obtain rfl := Option.some.inj hrun
      exact ⟨⟨isShaped_of hresults (.looping true), nofun, hkept⟩, by simp [fuel, weight]⟩
    | succ n =>
      obtain rfl := Option.some.inj hrun
      refine ⟨⟨isShaped_of hresults (.flagged n (by omega)), fun task answer hhead =>
        absurd hhead (head?_ne_callback n task answer).1, hkept⟩, ?_⟩
      simp [fuel, weight, List.replicate_succ]
  | finishing =>
    obtain rfl := Option.some.inj hrun
    refine ⟨⟨isShaped_of (n := 1) ?_ (.leaving 1 le_rfl none 1 (.inr ⟨rfl, rfl⟩)), nofun, hkept⟩, by simp [fuel, weight]⟩
    rw [List.length_append, hresults]
    rfl
  | leaving n hn pending _ handed =>
    cases n with
    | zero =>
      obtain rfl := Option.some.inj hrun
      exact ⟨⟨isShaped_of hresults (.left 1 le_rfl false pending _ handed), nofun, hkept⟩, by simp [fuel, weight]⟩
    | succ n =>
      obtain rfl := Option.some.inj hrun
      refine ⟨⟨isShaped_of hresults (.leaving n (by omega) pending _ handed), fun task answer hhead =>
        absurd hhead (head?_ne_callback n task answer).1, hkept⟩, ?_⟩
      simp [fuel, weight, List.replicate_succ]
  | left n hn _ pending _ handed =>
    cases n with
    | zero => cases hrun
    | succ n =>
      obtain rfl := Option.some.inj hrun
      refine ⟨⟨isShaped_of hresults (.left n (by omega) _ pending _ handed), fun task answer hhead =>
        absurd hhead (head?_ne_callback n task answer).2, hkept⟩, ?_⟩
      simp [fuel, weight, List.replicate_succ]
  | resumed task answer =>
    unfold Pump.run at hrun
    dsimp only at hrun
    rw [if_neg (Bool.eq_false_iff.mp (hreadable task answer rfl))] at hrun
    obtain rfl := Option.some.inj hrun
    obtain ⟨hreceived, hvisited⟩ := hkept.receive task answer
    refine ⟨⟨isShaped_of hresults (.entering _), nofun, hreceived⟩, ?_⟩
    simp [fuel, weight, hvisited]

/-- **Every step keeps the capture sound and takes from what is left.** -/
theorem Sound.next (h : Sound options callFrames p) {e : PumpEvent} (he : p.accepts options callFrames e = true) :
    Sound options callFrames (p.next options callFrames e) ∧
      (p.next options callFrames e).fuel options < p.fuel options := by
  unfold accepts at he
  rw [Bool.and_eq_true] at he
  obtain ⟨p', hnext⟩ := Option.isSome_iff_exists.mp he.1
  rw [Pump.next, hnext, Option.getD_some]
  cases e with
  | run => exact h.run hnext
  | answerNow answer =>
    unfold next? at hnext
    dsimp only at hnext
    split at hnext
    · next task rest hcalls =>
      obtain rfl := Option.some.inj hnext
      obtain ⟨rfl, hpumping, hagain, hpending, hresults⟩ := h.shaped.asked hcalls
      rw [hcalls] at he
      refine ⟨⟨isShaped_of hresults ?_, fun _ _ hhead => ?_, h.kept⟩, ?_⟩
      · rw [hpumping, hagain, hpending]
        exact .answered task answer
      · obtain ⟨rfl, rfl⟩ := Call.callback.inj (Option.some.inj hhead)
        exact (Bool.not_eq_true' _).mp he.2
      · simp [fuel, weight, hcalls, hagain]
    · cases hnext
  | answerLater =>
    unfold next? at hnext
    dsimp only at hnext
    split at hnext
    · next task rest hcalls =>
      obtain rfl := Option.some.inj hnext
      obtain ⟨rfl, hpumping, hagain, hpending, hresults⟩ := h.shaped.asked hcalls
      refine ⟨⟨isShaped_of hresults ?_, nofun, h.kept⟩, ?_⟩
      · rw [hpumping, hagain]
        exact .leaving 1 le_rfl (some task) 0 (.inl ⟨rfl, rfl⟩)
      · simp [fuel, weight, hcalls, hpending]
        omega
    · cases hnext
  | callBack answer =>
    unfold next? at hnext
    dsimp only at hnext
    split at hnext
    · next task hcalls hpending =>
      obtain rfl := Option.some.inj hnext
      obtain ⟨hpumping, hhanded⟩ := h.shaped.idle hcalls
      rcases hhanded with ⟨-, hresults⟩ | ⟨hnone, -⟩
      · rw [hcalls, hpending] at he
        refine ⟨⟨isShaped_of hresults ?_, fun _ _ hhead => ?_, h.kept⟩, ?_⟩
        · rw [hpumping]
          exact .resumed task answer _
        · obtain ⟨rfl, rfl⟩ := Call.callback.inj (Option.some.inj hhead)
          exact (Bool.not_eq_true' _).mp he.2
        · simp [fuel, weight, hcalls, hpending]
      · rw [hpending] at hnone
        cases hnone
    · cases hnext

/-- Nothing happens where nothing runs and no answer is owed. -/
theorem accepts_eq_false (hcalls : p.calls = []) (hpending : p.pending = none) (e : PumpEvent) :
    p.accepts options callFrames e = false := by
  cases e <;> simp [accepts, next?, Pump.run, hcalls, hpending]

/-- A capture at which nothing can happen any more has called back. -/
theorem Sound.done (h : Sound options callFrames p) (hstuck : ∀ e, p.accepts options callFrames e = false) :
    p.results.length = 1 := by
  rcases hcalls : p.calls with - | ⟨call, rest⟩
  · obtain ⟨-, ⟨hpending, -⟩ | ⟨-, hresults⟩⟩ := h.shaped.idle hcalls
    · -- the inspector still owes an answer
      obtain ⟨task, htask⟩ := Option.isSome_iff_exists.mp hpending
      have hcallBack := hstuck (.callBack (.error []))
      simp [accepts, next?, hcalls, htask, Capture.throws] at hcallBack
    · exact hresults
  · have hrun := hstuck .run
    have hlater := hstuck .answerLater
    exfalso
    cases call with
    | getProperties task => simp [accepts, next?, hcalls] at hlater
    | processNext | loop | callback =>
      simp only [accepts, next?, Pump.run, hcalls, Bool.and_true] at hrun
      split at hrun <;> cases hrun
    | step =>
      simp only [accepts, next?, Pump.run, hcalls, Bool.and_true] at hrun
      split at hrun <;> cases hrun
    | _ => simp [accepts, next?, Pump.run, hcalls] at hrun

theorem sound_start (options : CaptureOptions) (callFrames : List CallFrameDescriptor) :
    Sound options callFrames (start options callFrames) := by
  obtain ⟨c₀, hstarted, -, -, -, -, hvisited, hrequests⟩ := startCapture_started options callFrames
  refine ⟨.entering false, nofun, bounded_startCapture options callFrames, asked_startCapture options callFrames, ?_⟩
  show (startCapture options callFrames).requests.length = (startCapture options callFrames).visitedObjects
  rw [hstarted.requests, hrequests, hstarted.visitedObjects, hvisited]
  rfl

end

end Pump

/-- **A capture ends within its budget.**  However the inspector mixes callbacks at
once with later ones, a run is finite, the calls nest no deeper than six, and where
it ends the capture has called back exactly once.  It asks for no more objects than
the budget, and twice for none but a scope that captured frames share: that is
asked for once for each of them. -/
theorem capture_ends {options : CaptureOptions} {callFrames : List CallFrameDescriptor} {events : List PumpEvent}
    (h : AllOk (Pump.next options callFrames) (fun p e => p.accepts options callFrames e = true)
      (Pump.start options callFrames) events) :
    let p := events.foldl (Pump.next options callFrames) (Pump.start options callFrames)
    events.length ≤ 11 * max 1 options.maxObjects + 9 ∧ p.calls.length ≤ 6 ∧ p.results.length ≤ 1 ∧
      ((∀ e, p.accepts options callFrames e = false) → p.results.length = 1) ∧
      p.capture.requests.length ≤ max 1 options.maxObjects ∧
      p.capture.requests.Pairwise (Apart (keptFrames options callFrames)) := by
  intro p
  have hstart := Pump.sound_start options callFrames
  have hsound : Pump.Sound options callFrames p :=
    AllOk.invariant (fun _ _ hs he => (hs.next he).1) hstart h
  have hlength : events.length + p.fuel options ≤ (Pump.start options callFrames).fuel options :=
    AllOk.length_le (fun _ _ hs he => hs.next he) hstart h
  have hfuel : (Pump.start options callFrames).fuel options ≤ 11 * max 1 options.maxObjects + 9 := by
    show 11 * (options.objectBudget - _) + 9 + 0 ≤ 11 * options.objectBudget + 9
    omega
  have hbounded : p.capture.visitedObjects + p.capture.tasks.length ≤ max 1 options.maxObjects := hsound.kept.bounded
  refine ⟨by omega, hsound.shaped.length_le, hsound.shaped.results_le, hsound.done, ?_, ?_⟩
  · rw [hsound.kept.counted]
    omega
  · exact (List.pairwise_append.mp hsound.kept.asked.apart).1

/-! ### The captured values -/

namespace Pump

variable {options : CaptureOptions} {callFrames : List CallFrameDescriptor} {getProperties : JsString → Properties}
  {p : Pump}

/-- The request that is not yet answered, or whose answer is not yet read. -/
def awaited (p : Pump) : Option CaptureTask :=
  match p.calls.head? with
  | some (.getProperties task) | some (.callback task _) => some task
  | _ => p.pending

/-- The answers are those of a heap. -/
def Answers (getProperties : JsString → Properties) (p : Pump) : PumpEvent → Prop
  | .answerNow answer | .callBack answer => ∀ task ∈ p.awaited, answer = getProperties task.objectId
  | .run | .answerLater => True

instance (getProperties : JsString → Properties) (p : Pump) : DecidablePred (p.Answers getProperties)
  | .answerNow answer | .callBack answer =>
    inferInstanceAs (Decidable (∀ task ∈ p.awaited, answer = getProperties task.objectId))
  | .run | .answerLater => .isTrue trivial

/-- The objects that are read are those `Capture.step` reads, one after the other. -/
structure Follows (options : CaptureOptions) (getProperties : JsString → Properties)
    (callFrames : List CallFrameDescriptor) (p : Pump) : Prop where
  capture : ∃ n, match p.awaited with
    | some task => ∃ tasks, ((Capture.step options getProperties)^[n] (startCapture options callFrames)).tasks =
        task :: tasks ∧
      p.capture = ((Capture.step options getProperties)^[n] (startCapture options callFrames)).shift task tasks
    | none => p.capture = (Capture.step options getProperties)^[n] (startCapture options callFrames)
  answer : ∀ task answer, p.calls.head? = some (.callback task answer) → answer = getProperties task.objectId
  finish : p.calls.head? = some .finish → p.capture.tasks = []
  results : ∀ r ∈ p.results, r = capturePaused options getProperties callFrames

/-- Where nothing is left to be read, it is the last capture. -/
theorem iterate_eq_lastCapture {n : ℕ}
    (h : ((Capture.step options getProperties)^[n] (startCapture options callFrames)).tasks = []) :
    (Capture.step options getProperties)^[n] (startCapture options callFrames) =
      lastCapture options getProperties callFrames := by
  have hstop : ∀ c : Capture, c.tasks = [] → ∀ k, (Capture.step options getProperties)^[k] c = c := by
    intro c hc k
    refine Function.iterate_fixed ?_ k
    rw [Capture.step, hc]
  rcases Nat.le_total n options.objectBudget with hle | hle
  · rw [lastCapture, ← Nat.sub_add_cancel hle, Function.iterate_add_apply]
    exact (hstop _ h _).symm
  · rw [← Nat.sub_add_cancel hle, Function.iterate_add_apply]
    exact hstop _ (lastCapture_tasks options getProperties callFrames) _

/-- The functions that neither read nor answer. -/
theorem Follows.of_eq {p' : Pump} (h : Follows options getProperties callFrames p) (hc : p'.capture = p.capture)
    (ha : p'.awaited = p.awaited) (hr : p'.results = p.results)
    (hquiet : ∀ call, p'.calls.head? = some call → (∀ task answer, call ≠ .callback task answer) ∧ call ≠ .finish) :
    Follows options getProperties callFrames p' where
  capture := by
    rw [hc, ha]
    exact h.capture
  answer := fun task answer hhead => absurd rfl ((hquiet _ hhead).1 task answer)
  finish := fun hhead => absurd rfl (hquiet _ hhead).2
  results := by
    rw [hr]
    exact h.results

/-- An answer that is read takes the step of the capture. -/
theorem Follows.read {task : CaptureTask} {answer : Properties} {rest : List Call}
    (h : Follows options getProperties callFrames p) (hcalls : p.calls = .callback task answer :: rest)
    (hpending : p.pending = none) (calls : List Call) :
    Follows options getProperties callFrames
      { p with capture := p.capture.receive options task answer, calls := .processNext :: calls } := by
  obtain ⟨n, hcapture⟩ := h.capture
  have hawaited : p.awaited = some task := by rw [awaited, hcalls]; rfl
  rw [hawaited] at hcapture
  obtain ⟨tasks, htasks, hcapture⟩ := hcapture
  have hanswer := h.answer task answer (by rw [hcalls]; rfl)
  refine ⟨⟨n + 1, ?_⟩, nofun, nofun, h.results⟩
  have hnone : (Pump.mk (p.capture.receive options task answer) p.pumping p.pumpAgain (.processNext :: calls)
      p.pending p.results).awaited = none := hpending
  rw [hnone, Function.iterate_succ_apply']
  show p.capture.receive options task answer = Capture.step options getProperties _
  rw [Capture.step, htasks, hcapture, hanswer]

theorem Follows.run (h : Follows options getProperties callFrames p) (hsound : Sound options callFrames p) {p' : Pump}
    (hrun : p.run options callFrames = some p') : Follows options getProperties callFrames p' := by
  obtain ⟨hshaped, hreadable, -⟩ := hsound
  obtain ⟨capture, pumping, pumpAgain, calls, pending, results⟩ := p
  unfold IsShaped at hshaped
  dsimp only at hshaped hreadable
  generalize results.length = n at hshaped
  cases hshaped with
  | entering | looping | reentering =>
    obtain rfl := Option.some.inj hrun
    exact h.of_eq rfl rfl rfl fun call hcall => by cases hcall; exact ⟨nofun, nofun⟩
  | stepping =>
    obtain ⟨n, hcapture⟩ := h.capture
    have hcapture : capture = (Capture.step options getProperties)^[n] (startCapture options callFrames) := hcapture
    unfold Pump.run at hrun
    dsimp only at hrun
    split at hrun
    · next htasks =>
      obtain rfl := Option.some.inj hrun
      exact ⟨⟨n, hcapture⟩, nofun, fun _ => htasks, h.results⟩
    · next task tasks htasks =>
      obtain rfl := Option.some.inj hrun
      refine ⟨⟨n, ?_⟩, nofun, nofun, h.results⟩
      exact ⟨tasks, by rw [← hcapture]; exact htasks, by rw [← hcapture]⟩
  | asking => cases hrun
  | answered task answer | resumed task answer =>
    unfold Pump.run at hrun
    dsimp only at hrun
    rw [if_neg (Bool.eq_false_iff.mp (hreadable task answer rfl))] at hrun
    obtain rfl := Option.some.inj hrun
    exact h.read rfl rfl _
  | finishing =>
    obtain ⟨n, hcapture⟩ := h.capture
    have hcapture : capture = (Capture.step options getProperties)^[n] (startCapture options callFrames) := hcapture
    have htasks : capture.tasks = [] := h.finish rfl
    obtain rfl := Option.some.inj hrun
    refine ⟨⟨n, hcapture⟩, nofun, nofun, fun r hr => ?_⟩
    rcases List.mem_append.mp hr with hr | hr
    · exact h.results r hr
    · rw [List.mem_singleton.mp hr, capturePaused, ← iterate_eq_lastCapture (by rw [← hcapture]; exact htasks),
        ← hcapture]
  | flagged n | leaving n =>
    rcases n with - | - | n <;> obtain rfl := Option.some.inj hrun <;>
      exact h.of_eq rfl rfl rfl fun call hcall => by cases hcall; exact ⟨nofun, nofun⟩
  | left n =>
    rcases n with - | - | n
    · cases hrun
    · obtain rfl := Option.some.inj hrun
      exact h.of_eq rfl rfl rfl nofun
    · obtain rfl := Option.some.inj hrun
      exact h.of_eq rfl rfl rfl fun call hcall => by cases hcall; exact ⟨nofun, nofun⟩

theorem Follows.next (h : Follows options getProperties callFrames p) (hsound : Sound options callFrames p)
    {e : PumpEvent} (he : p.accepts options callFrames e = true) (hanswers : p.Answers getProperties e) :
    Follows options getProperties callFrames (p.next options callFrames e) := by
  unfold accepts at he
  rw [Bool.and_eq_true] at he
  obtain ⟨p', hnext⟩ := Option.isSome_iff_exists.mp he.1
  rw [Pump.next, hnext, Option.getD_some]
  cases e with
  | run => exact h.run hsound hnext
  | answerNow answer =>
    unfold next? at hnext
    dsimp only at hnext
    split at hnext
    · next task rest hcalls =>
      obtain rfl := Option.some.inj hnext
      have hawaited : p.awaited = some task := by rw [awaited, hcalls]; rfl
      refine ⟨?_, fun task' answer' hhead => ?_, nofun, h.results⟩
      · have hcapture := h.capture
        rw [hawaited] at hcapture
        exact hcapture
      · obtain ⟨rfl, rfl⟩ := Call.callback.inj (Option.some.inj hhead)
        exact hanswers task hawaited
    · cases hnext
  | answerLater =>
    unfold next? at hnext
    dsimp only at hnext
    split at hnext
    · next task rest hcalls =>
      obtain rfl := Option.some.inj hnext
      obtain ⟨rfl, -⟩ := hsound.shaped.asked hcalls
      have hawaited : p.awaited = some task := by rw [awaited, hcalls]; rfl
      exact h.of_eq rfl hawaited.symm rfl fun call hcall => by cases hcall; exact ⟨nofun, nofun⟩
    · cases hnext
  | callBack answer =>
    unfold next? at hnext
    dsimp only at hnext
    split at hnext
    · next task hcalls hpending =>
      obtain rfl := Option.some.inj hnext
      have hawaited : p.awaited = some task := by rw [awaited, hcalls]; exact hpending
      refine ⟨?_, fun task' answer' hhead => ?_, nofun, h.results⟩
      · have hcapture := h.capture
        rw [hawaited] at hcapture
        exact hcapture
      · obtain ⟨rfl, rfl⟩ := Call.callback.inj (Option.some.inj hhead)
        exact hanswers task hawaited
    · cases hnext

end Pump

/-- **What a capture calls back with does not depend on when the inspector calls
back**: it is what `capturePaused` makes of the heap. -/
theorem results_eq_capturePaused {options : CaptureOptions} {callFrames : List CallFrameDescriptor}
    {getProperties : JsString → Properties} {events : List PumpEvent}
    (h : AllOk (Pump.next options callFrames)
      (fun p e => p.accepts options callFrames e = true ∧ p.Answers getProperties e)
      (Pump.start options callFrames) events) :
    ∀ r ∈ (events.foldl (Pump.next options callFrames) (Pump.start options callFrames)).results,
      r = capturePaused options getProperties callFrames := by
  have hstart : Pump.Sound options callFrames (Pump.start options callFrames) ∧
      Pump.Follows options getProperties callFrames (Pump.start options callFrames) :=
    ⟨Pump.sound_start options callFrames, ⟨0, rfl⟩, nofun, nofun, List.forall_mem_nil _⟩
  refine (AllOk.invariant (I := fun p => Pump.Sound options callFrames p ∧
    Pump.Follows options getProperties callFrames p) (fun p e hp he => ?_) hstart h).2.results
  exact ⟨(hp.1.next he.1).1, hp.2.next hp.1 he.1 he.2⟩

/-! ### Two frames in one block -/

namespace Sample

def captureOptions : CaptureOptions where
  maxArray := 10
  maxDepth := 3
  maxObjects := 10
  maxProps := 10
  maxStackFrames := 5
  isRedactedKey _ := false
  scriptPath _ := []

/-- A frame whose only scope is a block. -/
def blockFrame (objectId : JsString) : CallFrameDescriptor := ⟨[], js "1", 0, [⟨js "block", some objectId⟩]⟩

/-- A property that holds an object. -/
def holding (name objectId : JsString) : PropertyDescriptor :=
  ⟨name, some true, some ⟨js "object", none, none, none, some objectId⟩⟩

/-- Two frames and the two objects their blocks hold, one of them in both: the
inspector calls back at once and later in turn. -/
def pumpEvents : List PumpEvent :=
  let user := holding (js "user") (js "u")
  [.run, .run, .run, .answerNow (.ok [user]), .run, .run, .run, .run, .run, .run, .run, .run, .answerLater, .run, .run,
    .run, .callBack (.ok [user, holding (js "order") (js "o")]), .run, .run, .run, .run, .answerNow (.ok []), .run,
    .run, .run, .run, .run, .run, .run, .run, .answerLater, .run, .run, .run, .callBack (.ok []), .run, .run, .run,
    .run, .run, .run, .run, .run]

/-- A capture of two frames after these events. -/
def pumped (first second : JsString) : Pump :=
  pumpEvents.foldl (Pump.next captureOptions [blockFrame first, blockFrame second])
    (Pump.start captureOptions [blockFrame first, blockFrame second])

theorem pumped_run : ∀ second ∈ [js "a", js "b"],
    AllOk (Pump.next captureOptions [blockFrame (js "a"), blockFrame second])
      (fun p e => p.accepts captureOptions [blockFrame (js "a"), blockFrame second] e = true)
      (Pump.start captureOptions [blockFrame (js "a"), blockFrame second]) pumpEvents := by
  decide +kernel

/-- The blocks of two frames are read and the objects in them, each once. -/
theorem pumped_ends : (pumped (js "a") (js "b")).results.length = 1 ∧
    (pumped (js "a") (js "b")).capture.requests.Pairwise
      (Apart (keptFrames captureOptions [blockFrame (js "a"), blockFrame (js "b")])) := by
  obtain ⟨-, -, -, hdone, -, hapart⟩ := capture_ends (pumped_run (js "b") (by decide))
  have hidle : (pumped (js "a") (js "b")).calls.isEmpty = true ∧ (pumped (js "a") (js "b")).pending.isNone = true := by
    decide +kernel
  unfold pumped at hidle ⊢
  exact ⟨hdone (Pump.accepts_eq_false (List.isEmpty_iff.mp hidle.1) (Option.isNone_iff_eq_none.mp hidle.2)), hapart⟩

/-- One block that is a scope of both frames is read twice. -/
theorem pumped_twice : ∃ options callFrames events,
    AllOk (Pump.next options callFrames) (fun p e => p.accepts options callFrames e = true)
      (Pump.start options callFrames) events ∧
    ¬ ((events.foldl (Pump.next options callFrames) (Pump.start options callFrames)).capture.requests.map
      Prod.snd).Nodup := by
  refine ⟨captureOptions, [blockFrame (js "a"), blockFrame (js "a")], pumpEvents, pumped_run (js "a") (by decide), ?_⟩
  decide +kernel

end Sample

end PauseCapture
