/-
LiveProbe/PauseCapture.lean

The capture of a paused process: `capture.ts` of the Node agent.  Objects are
read with one `Runtime.getProperties` at a time, from a queue that starts with
the scopes of the frames.

An object that is met while objects are still to be read gets a container and a
place in the queue, or the marker of what was not read when the budget is spent.
One that is met at the depth limit gets a container and no place in the queue:
the container stays empty, and nothing marks it.
-/
import LiveProbe.JsMap
import LiveProbe.NodeCapture
import LiveProbe.NodeSerializer
import Mathlib.Data.List.Sort

open JsString

namespace PauseCapture

/-! ### What the inspector sends -/

structure RemoteObject where
  type : JsString
  subtype : Option JsString
  value : Option JsonScalar
  unserializableValue : Option JsString
  objectId : Option JsString
  deriving DecidableEq

structure PropertyDescriptor where
  name : JsString
  enumerable : Option Bool
  value : Option RemoteObject
  deriving DecidableEq

structure ScopeDescriptor where
  type : JsString
  objectId : Option JsString

structure CallFrameDescriptor where
  functionName : JsString
  scriptId : JsString
  lineNumber : ℕ
  scopeChain : List ScopeDescriptor

/-- The answer to `getProperties`: descriptors or the message of an error. -/
abbrev Properties := Except JsString (List PropertyDescriptor)

/-! ### What is captured -/

/-- A captured value; `truncated` is the marker of an object that was not read. -/
inductive CapturedValue
  | undefined
  | null
  | function
  | truncated
  | scalar (value : JsonScalar)
  | container (ref : ℕ)
  deriving DecidableEq

/-- The data properties of an object that is being filled. -/
inductive Content
  | record (members : JsMap JsString CapturedValue)
  | array (length : ℕ) (items : JsMap ℕ CapturedValue)

/-- An object of the capture.  What it stands for and the depth at which that
was met are no part of the code: no step reads them. -/
structure Cell where
  content : Content
  stands : List JsString
  depth : ℕ

structure StackFrame where
  fn : JsString
  file : JsString
  line : ℕ

structure CaptureOptions where
  maxArray : ℕ
  maxDepth : ℕ
  maxObjects : ℕ
  maxProps : ℕ
  maxStackFrames : ℕ
  isRedactedKey : JsString → Bool
  scriptPath : JsString → JsString

/-- `objectBudget` -/
def CaptureOptions.objectBudget (options : CaptureOptions) : ℕ := max 1 options.maxObjects

structure CaptureTask where
  depth : ℕ
  objectId : JsString
  target : ℕ
  preserveExisting : Bool

/-- The variables of `capturePaused` and the requests it has sent, each with the
container that the answer is read into; an entry of `frameLocals` is the frame's
container, or the marker of a frame that was not read. -/
structure Capture where
  cells : List Cell
  frameLocals : List (Option ℕ)
  stack : List StackFrame
  tasks : List CaptureTask := []
  materializedObjects : JsMap JsString ℕ := ∅
  firstError : Option JsString := none
  visitedObjects : ℕ := 0
  requests : List (ℕ × JsString) := []

def remotePrimitive (remote : RemoteObject) : CapturedValue :=
  if remote.type = js "function" then .function
  else if remote.subtype = some (js "null") then .null
  else if remote.type = js "undefined" ∨ remote.type = js "symbol" ∨ remote.type = js "bigint" then .undefined
  else if remote.unserializableValue.isSome then .undefined
  else
    match remote.value with
    | some value => .scalar value
    | none => .undefined

def createContainer (remote : RemoteObject) : Content :=
  if remote.subtype = some (js "array") then .array 0 ∅ else .record ∅

/-- `/^(0|[1-9]\d*)$/`, and the number of a name that it matches. -/
def indexOf (name : JsString) : Option ℕ :=
  (readDecimal name).bind fun i => if decimal i = name then some i else none

namespace Content

def isArray : Content → Bool
  | record _ => false
  | array .. => true

/-- `Object.prototype.hasOwnProperty` -/
def hasOwn (key : JsString) : Content → Bool
  | record members => members.has key
  | array _ items => key = js "length" || ((indexOf key).bind items.get?).isSome

/-- `defineData`, and the assignment to an element of an array. -/
def define (key : JsString) (value : CapturedValue) : Content → Content
  | record members => record (members.set key value)
  | array length items =>
    match indexOf key with
    | some i => array (max length (i + 1)) (items.set i value)
    | none => array length items

/-- `target.length = length` -/
def setLength (length : ℕ) : Content → Content
  | record members => record members
  | array _ items => array length (items.filter fun i _ => i < length)

end Content

/-! ### Descriptors -/

/-- The properties a capture is interested in. -/
def enumerable (descriptors : List PropertyDescriptor) : List PropertyDescriptor :=
  descriptors.filter fun d => d.enumerable ≠ some false

/-- The length an array has, when its descriptor gives one. -/
def describedLength (descriptors : List PropertyDescriptor) : Option ℕ := do
  let descriptor ← descriptors.find? fun d => d.name = js "length"
  match (← descriptor.value).value with
  | some (.num q) => if q.den = 1 ∧ 0 ≤ q.num ∧ q.num.natAbs ≤ Schema.maxSafeInteger then some q.num.natAbs else none
  | _ => none

/-- `selectedDescriptors` -/
def selectedDescriptors (options : CaptureOptions) (descriptors : List PropertyDescriptor) (isArray : Bool) :
    List PropertyDescriptor :=
  if isArray then
    (((enumerable descriptors).filter fun d => (indexOf d.name).isSome).insertionSort
      fun left right => (indexOf left.name).getD 0 ≤ (indexOf right.name).getD 0).filter
        fun d => (indexOf d.name).getD 0 < options.maxArray
  else (enumerable descriptors).take (options.maxProps + 1)

/-! ### The queue -/

/-- The object with an index. -/
def contentAt (cells : List Cell) (ref : ℕ) : Option Content := cells[ref]?.map Cell.content

namespace Capture

variable (options : CaptureOptions)

/-- Change an object. -/
def write (target : ℕ) (f : Content → Content) (c : Capture) : Capture :=
  { c with cells := c.cells.modify target fun cell => { cell with content := f cell.content } }

def isArray (target : ℕ) (c : Capture) : Bool := (contentAt c.cells target).any (·.isArray)

def hasOwn (target : ℕ) (key : JsString) (c : Capture) : Bool := (contentAt c.cells target).any (·.hasOwn key)

/-- The container of an object that is met at a depth. -/
def create (remote : RemoteObject) (objectId : JsString) (depth : ℕ) (c : Capture) : Capture :=
  { c with cells := c.cells ++ [{ content := createContainer remote, stands := [objectId], depth := depth }] }

/-- A property that holds an object. -/
def addObject (task : CaptureTask) (key : JsString) (remote : RemoteObject) (objectId : JsString)
    (c : Capture) : Capture :=
  match c.materializedObjects.get? objectId with
  | some existing => c.write task.target (·.define key (.container existing))
  | none =>
    let needsTraversal := task.depth < options.maxDepth
    let budgetExhausted := needsTraversal ∧ options.objectBudget ≤ c.visitedObjects + c.tasks.length
    if budgetExhausted then c.write task.target (·.define key .truncated)
    else
      let value := c.cells.length
      let c := (c.create remote objectId (task.depth + 1)).write task.target (·.define key (.container value))
      if task.depth < options.maxDepth ∧ c.visitedObjects + c.tasks.length < options.objectBudget then
        { c with materializedObjects := c.materializedObjects.set objectId value
                 tasks := c.tasks ++ [⟨task.depth + 1, objectId, value, false⟩] }
      else c

/-- One descriptor of an answer. -/
def addDescriptor (task : CaptureTask) (c : Capture) (descriptor : PropertyDescriptor) : Capture :=
  let key := descriptor.name
  if task.preserveExisting && c.hasOwn task.target key then c
  else if options.isRedactedKey key then
    if c.isArray task.target then c else c.write task.target (·.define key .undefined)
  else
    match descriptor.value with
    | none => c.write task.target (·.define key (.scalar (.str (js "[getter]"))))
    | some remote =>
      match remote.objectId with
      | none => c.write task.target (·.define key (remotePrimitive remote))
      | some objectId => c.addObject options task key remote objectId

/-- `selectedDescriptors` gives an array its length. -/
def describe (task : CaptureTask) (descriptors : List PropertyDescriptor) (c : Capture) : Capture :=
  match describedLength descriptors with
  | some length => c.write task.target (·.setLength length)
  | none => c

/-- The callback of `getProperties`. -/
def receive (task : CaptureTask) (answer : Properties) (c : Capture) : Capture :=
  match answer with
  | .error message => { c with firstError := some (c.firstError.getD message) }
  | .ok descriptors =>
    (selectedDescriptors options descriptors (c.isArray task.target)).foldl (addDescriptor options task)
      (c.describe task descriptors)

/-- `tasks.shift()`, and the request for the properties of its object. -/
def shift (task : CaptureTask) (tasks : List CaptureTask) (c : Capture) : Capture :=
  { c with tasks := tasks
           visitedObjects := c.visitedObjects + 1
           requests := c.requests ++ [(task.target, task.objectId)] }

/-- `step` with its callback; nothing when no task is left. -/
def step (getProperties : JsString → Properties) (c : Capture) : Capture :=
  match c.tasks with
  | [] => c
  | task :: tasks =>
    receive options task (getProperties task.objectId) (c.shift task tasks)

end Capture

/-! ### The frames -/

/-- `frameScopeIds` -/
def frameScopeIds (frame : CallFrameDescriptor) : List JsString :=
  frame.scopeChain.foldl (fun ids scope =>
    match scope.objectId with
    | some objectId =>
      if scope.type ∈ [js "local", js "block", js "catch"] ∧ objectId ∉ ids then ids ++ [objectId] else ids
    | none => ids) []

/-- A scope of the frame `target`, unless the budget is spent; with the number captured so far. -/
def addScope (options : CaptureOptions) (target : ℕ) (state : Capture × ℕ) (objectId : JsString) : Capture × ℕ :=
  if options.objectBudget ≤ state.1.tasks.length then state
  else
    ({ state.1 with
       materializedObjects := state.1.materializedObjects.set objectId target
       tasks := state.1.tasks ++ [⟨0, objectId, target, 0 < state.2⟩] }, state.2 + 1)

/-- A frame: its scopes are queued, or its locals are marked as not read. -/
def addFrame (options : CaptureOptions) (c : Capture) (entry : CallFrameDescriptor × ℕ) : Capture :=
  let scopeIds := frameScopeIds entry.1
  if scopeIds = [] then c
  else
    let (c, captured) := scopeIds.foldl (addScope options entry.2) (c, 0)
    if captured = 0 then { c with frameLocals := c.frameLocals.set entry.2 none } else c

/-- The frames that are captured. -/
def keptFrames (options : CaptureOptions) (callFrames : List CallFrameDescriptor) : List CallFrameDescriptor :=
  callFrames.take options.maxStackFrames

/-- `capturePaused` up to its first `processNext` -/
def startCapture (options : CaptureOptions) (callFrames : List CallFrameDescriptor) : Capture :=
  let frames := keptFrames options callFrames
  frames.zipIdx.foldl (addFrame options)
    { cells := frames.map fun frame => ⟨.record ∅, frameScopeIds frame, 0⟩
      frameLocals := (List.range frames.length).map some
      stack := frames.map fun frame =>
        { fn := if frame.functionName = [] then js "(anonymous)" else frame.functionName
          file := options.scriptPath frame.scriptId
          line := frame.lineNumber + 1 } }

/-- `RawCapture`; `root` is the container of its `variables`. -/
structure RawCapture where
  cells : List Cell
  root : ℕ
  frameLocals : List (Option ℕ)
  stack : List StackFrame
  requests : List (ℕ × JsString)

/-- `finish`; where the paused frame was not read its variables are a new object. -/
def finish (callFrames : List CallFrameDescriptor) (c : Capture) : RawCapture :=
  let stands := (callFrames.head?.map frameScopeIds).getD []
  match c.frameLocals.head? with
  | some (some ref) => ⟨c.cells, ref, c.frameLocals, c.stack, c.requests⟩
  | _ =>
    ⟨c.cells ++ [{ content := .record ∅, stands := stands, depth := 0 }], c.cells.length, c.frameLocals, c.stack,
      c.requests⟩

/-- The capture once the queue is empty; every task takes from the budget. -/
def lastCapture (options : CaptureOptions) (getProperties : JsString → Properties)
    (callFrames : List CallFrameDescriptor) : Capture :=
  (Capture.step options getProperties)^[options.objectBudget] (startCapture options callFrames)

/-- `capturePaused`: what it calls back with. -/
def capturePaused (options : CaptureOptions) (getProperties : JsString → Properties)
    (callFrames : List CallFrameDescriptor) : Option JsString × RawCapture :=
  let c := lastCapture options getProperties callFrames
  (c.firstError, finish callFrames c)

/-! ### Captured values, as the readers of a capture find them -/

section

open NodeAgent

variable (cells : List Cell)

/-- `getOwnPropertyDescriptor`, when the property has a value. -/
def ownProperty (value : CapturedValue) (key : JsString) : Option CapturedValue :=
  match value with
  | .container ref =>
    match contentAt cells ref with
    | some (.record members) => members.get? key
    | some (.array length items) =>
      if key = js "length" then some (.scalar (.num length)) else (indexOf key).bind items.get?
    | none => none
  | _ => none

def heap : Heap CapturedValue where
  captured
    | .undefined => .undefined
    | .null | .scalar .null => .null
    | .function => .function
    | .truncated => .truncated
    | .scalar (.bool b) => .boolean b
    | .scalar (.num q) => .number (Binary64.Double.ofRat false q)
    | .scalar (.str s) => .string s
    | .container ref => if (contentAt cells ref).any (·.isArray) then .array else .object
  property := ownProperty cells

end

/-! ### What a step does -/

namespace Capture

variable {options : CaptureOptions} {task : CaptureTask} {descriptor : PropertyDescriptor} {c c' : Capture}

theorem write_getElem? (target : ℕ) (f : Content → Content) (c : Capture) (ref : ℕ) :
    (c.write target f).cells[ref]? =
      if target = ref then c.cells[ref]?.map fun cell => { cell with content := f cell.content }
      else c.cells[ref]? := by
  rw [write, List.getElem?_modify]
  split <;> simp

/-- What one descriptor does to a capture. -/
inductive Added (options : CaptureOptions) (task : CaptureTask) (descriptor : PropertyDescriptor) (c : Capture) :
    Capture → Prop
  /-- a name that is there, or a redacted element of an array -/
  | kept (h : c.hasOwn task.target descriptor.name = true ∨ c.isArray task.target = true) :
      Added options task descriptor c c
  /-- no object that is not read yet -/
  | wrote (value : CapturedValue)
      (h : ∀ ref, value = .container ref → ∃ objectId, c.materializedObjects.get? objectId = some ref) :
      Added options task descriptor c (c.write task.target (·.define descriptor.name value))
  /-- an object at the depth limit -/
  | met (remote : RemoteObject) (objectId : JsString) (hvalue : descriptor.value = some remote)
      (hid : remote.objectId = some objectId) (hdepth : options.maxDepth ≤ task.depth) :
      Added options task descriptor c
        ((c.create remote objectId (task.depth + 1)).write task.target
          (·.define descriptor.name (.container c.cells.length)))
  /-- an object that is to be read -/
  | queued (remote : RemoteObject) (objectId : JsString) (hvalue : descriptor.value = some remote)
      (hid : remote.objectId = some objectId) (hdepth : task.depth < options.maxDepth)
      (hbudget : c.visitedObjects + c.tasks.length < options.objectBudget) :
      Added options task descriptor c
        { (c.create remote objectId (task.depth + 1)).write task.target
            (·.define descriptor.name (.container c.cells.length)) with
          materializedObjects := c.materializedObjects.set objectId c.cells.length
          tasks := c.tasks ++ [⟨task.depth + 1, objectId, c.cells.length, false⟩] }

theorem remotePrimitive_ne_container (remote : RemoteObject) (ref : ℕ) :
    remotePrimitive remote ≠ .container ref := by
  intro h
  rw [remotePrimitive] at h
  split_ifs at h
  split at h <;> cases h

theorem addDescriptor_added (options : CaptureOptions) (task : CaptureTask) (c : Capture)
    (descriptor : PropertyDescriptor) : Added options task descriptor c (c.addDescriptor options task descriptor) := by
  unfold addDescriptor
  by_cases hkept : (task.preserveExisting && c.hasOwn task.target descriptor.name) = true
  · rw [if_pos hkept]
    exact .kept (.inl (Bool.and_eq_true_iff.mp hkept).2)
  rw [if_neg hkept]
  by_cases hredacted : options.isRedactedKey descriptor.name = true
  · rw [if_pos hredacted]
    split
    · rename_i harray
      exact .kept (.inr harray)
    · exact .wrote _ nofun
  rw [if_neg hredacted]
  rcases hvalue : descriptor.value with - | remote
  · exact .wrote _ nofun
  rcases hid : remote.objectId with - | objectId
  · simp only [hid]
    exact .wrote _ fun ref h => absurd h (remotePrimitive_ne_container remote ref)
  simp only [hid]
  unfold addObject
  rcases hexisting : c.materializedObjects.get? objectId with - | existing
  · simp only
    by_cases hexhausted : task.depth < options.maxDepth ∧ options.objectBudget ≤ c.visitedObjects + c.tasks.length
    · rw [if_pos hexhausted]
      exact .wrote _ nofun
    rw [if_neg hexhausted]
    by_cases hdepth : task.depth < options.maxDepth
    · have hbudget : c.visitedObjects + c.tasks.length < options.objectBudget :=
        not_le.mp fun h => hexhausted ⟨hdepth, h⟩
      rw [if_pos ⟨hdepth, hbudget⟩]
      exact .queued remote objectId hvalue hid hdepth hbudget
    · rw [if_neg fun h => hdepth h.1]
      exact .met remote objectId hvalue hid (not_lt.mp hdepth)
  · -- an object that has its container, at whatever depth that was
    exact .wrote _ fun ref h => ⟨objectId, by rw [hexisting]; cases h; rfl⟩

/-- What each descriptor of an answer keeps is kept by the answer. -/
theorem foldl_added {P : Capture → Prop} {l : List PropertyDescriptor}
    (h : ∀ c d c', d ∈ l → P c → Added options task d c c' → P c') (hc : P c) :
    P (l.foldl (addDescriptor options task) c) := by
  induction l generalizing c with
  | nil => exact hc
  | cons d l ih =>
    exact ih (fun c d' c' hd' => h c d' c' (List.mem_cons_of_mem d hd'))
      (h c d _ List.mem_cons_self hc (addDescriptor_added options task c d))

/-! ### The budget -/

/-- The objects visited and those in the queue are within the budget. -/
def Bounded (options : CaptureOptions) (c : Capture) : Prop :=
  c.visitedObjects + c.tasks.length ≤ options.objectBudget

/-- What is added to the queue is within the budget, and visits nothing. -/
theorem Added.bounded (h : Added options task descriptor c c') (hc : Bounded options c) :
    Bounded options c' ∧ c'.visitedObjects = c.visitedObjects := by
  cases h with
  | kept => exact ⟨hc, rfl⟩
  | wrote => exact ⟨hc, rfl⟩
  | met => exact ⟨hc, rfl⟩
  | queued remote objectId hvalue hid hdepth hbudget =>
    refine ⟨?_, rfl⟩
    show c.visitedObjects + (c.tasks ++ [_]).length ≤ _
    rw [List.length_append]
    exact hbudget

theorem describe_eq (task : CaptureTask) (descriptors : List PropertyDescriptor) (c : Capture) :
    ∃ f, c.describe task descriptors = c.write task.target f := by
  unfold describe
  split
  · exact ⟨_, rfl⟩
  · refine ⟨id, ?_⟩
    show c = { c with cells := c.cells.modify task.target id }
    rw [List.modify_id]

theorem Bounded.receive (hc : Bounded options c) (task : CaptureTask) (answer : Properties) :
    Bounded options (c.receive options task answer) ∧
      (c.receive options task answer).visitedObjects = c.visitedObjects := by
  cases answer with
  | error message => exact ⟨hc, rfl⟩
  | ok descriptors =>
    obtain ⟨f, hf⟩ := describe_eq task descriptors c
    refine foldl_added (P := fun c' => Bounded options c' ∧ c'.visitedObjects = c.visitedObjects)
      (fun c₁ d c₂ _ h₁ h => ?_) ?_
    · obtain ⟨hbounded, hvisited⟩ := h.bounded h₁.1
      exact ⟨hbounded, hvisited.trans h₁.2⟩
    · rw [hf]
      exact ⟨hc, rfl⟩

/-- A step ends the capture or visits an object. -/
theorem Bounded.step (hc : Bounded options c) (getProperties : JsString → Properties) :
    Bounded options (c.step options getProperties) ∧
      (c.tasks = [] ∧ c.step options getProperties = c ∨
        (c.step options getProperties).visitedObjects = c.visitedObjects + 1) := by
  unfold Capture.step
  split
  · rename_i h
    exact ⟨hc, .inl ⟨h, rfl⟩⟩
  · rename_i task tasks h
    have hbounded : Bounded options (c.shift task tasks) := by
      unfold Bounded at hc ⊢
      rw [h, List.length_cons] at hc
      show c.visitedObjects + 1 + tasks.length ≤ _
      omega
    obtain ⟨hreceived, hvisited⟩ := hbounded.receive task (getProperties task.objectId)
    exact ⟨hreceived, .inr hvisited⟩

theorem Bounded.iterate (hc : Bounded options c) (getProperties : JsString → Properties) (n : ℕ) :
    Bounded options ((Capture.step options getProperties)^[n] c) ∧
      (((Capture.step options getProperties)^[n] c).tasks = [] ∨
        ((Capture.step options getProperties)^[n] c).visitedObjects = c.visitedObjects + n) := by
  induction n with
  | zero => exact ⟨hc, .inr rfl⟩
  | succ n ih =>
    rw [Function.iterate_succ_apply']
    obtain ⟨hbounded, hdone⟩ := ih
    generalize (Capture.step options getProperties)^[n] c = c₁ at hbounded hdone
    obtain ⟨hstep, htasks | hvisited⟩ := hbounded.step getProperties
    · exact ⟨hstep, .inl (by rw [htasks.2]; exact htasks.1)⟩
    · rcases hdone with htasks | hdone
      · rw [Capture.step, htasks] at hvisited
        exact absurd hvisited (Nat.lt_succ_self _).ne
      · exact ⟨hstep, .inr (by rw [hvisited, hdone]; rfl)⟩

end Capture

section

variable {options : CaptureOptions}

/-! ### The start of a capture -/

/-- What queueing the scopes of a frame changes. -/
theorem foldl_addScope (target : ℕ) (ids : List JsString) (c : Capture) (captured : ℕ) :
    ∃ tasks materialized,
      ids.foldl (addScope options target) (c, captured) =
        ({ c with tasks := c.tasks ++ tasks, materializedObjects := materialized }, captured + tasks.length) ∧
      tasks.map CaptureTask.objectId = ids.take (options.objectBudget - c.tasks.length) ∧
      (∀ t ∈ tasks, t.target = target ∧ t.depth = 0) ∧
      ∀ objectId ref, materialized.get? objectId = some ref →
        ref = target ∨ c.materializedObjects.get? objectId = some ref := by
  induction ids generalizing c captured with
  | nil => exact ⟨[], c.materializedObjects, by simp, by simp, List.forall_mem_nil _, fun _ _ h => .inr h⟩
  | cons objectId ids ih =>
    rw [List.foldl_cons, addScope]
    by_cases hspent : options.objectBudget ≤ c.tasks.length
    · rw [if_pos hspent]
      obtain ⟨tasks, materialized, hfold, hids, htasks, hmaterialized⟩ := ih c captured
      refine ⟨tasks, materialized, hfold, ?_, htasks, hmaterialized⟩
      rw [hids, Nat.sub_eq_zero_of_le hspent, List.take_zero, List.take_zero]
    · rw [if_neg hspent]
      obtain ⟨tasks, materialized, hfold, hids, htasks, hmaterialized⟩ :=
        ih { c with materializedObjects := c.materializedObjects.set objectId target
                    tasks := c.tasks ++ [⟨0, objectId, target, 0 < captured⟩] } (captured + 1)
      refine ⟨⟨0, objectId, target, 0 < captured⟩ :: tasks, materialized, ?_, ?_, ?_, fun o ref h => ?_⟩
      · rw [hfold, List.append_assoc, List.length_cons, Nat.add_right_comm, Nat.add_assoc]
        rfl
      · have hlength : options.objectBudget - c.tasks.length =
            options.objectBudget - (c.tasks ++ [(⟨0, objectId, target, 0 < captured⟩ : CaptureTask)]).length + 1 := by
          rw [List.length_append, List.length_singleton]
          omega
        rw [hlength, List.take_succ_cons, List.map_cons, hids]
      · intro t ht
        rcases List.mem_cons.mp ht with rfl | ht
        · exact ⟨rfl, rfl⟩
        · exact htasks t ht
      · rcases hmaterialized o ref h with h | h
        · exact .inl h
        · rw [JsMap.get?_set] at h
          split at h
          · exact .inl (Option.some.inj h).symm
          · exact .inr h

/-- The scopes of the frames. -/
def scopeCount (frames : List CallFrameDescriptor) : ℕ := (frames.map fun frame => (frameScopeIds frame).length).sum

/-- What a frame changes. -/
structure Framed (options : CaptureOptions) (entry : CallFrameDescriptor × ℕ) (c c' : Capture) : Prop where
  cells : c'.cells = c.cells
  firstError : c'.firstError = c.firstError
  visitedObjects : c'.visitedObjects = c.visitedObjects
  stack : c'.stack = c.stack
  requests : c'.requests = c.requests
  queue : ∃ tasks, c'.tasks = c.tasks ++ tasks ∧
    tasks.map CaptureTask.objectId = (frameScopeIds entry.1).take (options.objectBudget - c.tasks.length) ∧
    ∀ t ∈ tasks, t.target = entry.2 ∧ t.depth = 0
  materialized : ∀ objectId ref, c'.materializedObjects.get? objectId = some ref →
    ref = entry.2 ∨ c.materializedObjects.get? objectId = some ref
  frameLocals : c'.frameLocals = if frameScopeIds entry.1 ≠ [] ∧ options.objectBudget ≤ c.tasks.length then
    c.frameLocals.set entry.2 none else c.frameLocals

theorem addFrame_framed (entry : CallFrameDescriptor × ℕ) (c : Capture) :
    Framed options entry c (addFrame options c entry) := by
  unfold addFrame
  by_cases hempty : frameScopeIds entry.1 = []
  · simp only [hempty, if_true]
    exact ⟨rfl, rfl, rfl, rfl, rfl, ⟨[], by simp, by simp [hempty], List.forall_mem_nil _⟩, fun _ _ h => .inr h,
      by simp [hempty]⟩
  · simp only [hempty, if_false]
    obtain ⟨tasks, materialized, hfold, hids, htasks, hmaterialized⟩ :=
      @foldl_addScope options entry.2 (frameScopeIds entry.1) c 0
    have hlength : tasks.length = min (options.objectBudget - c.tasks.length) (frameScopeIds entry.1).length := by
      rw [← List.length_take, ← hids, List.length_map]
    have hpos : 0 < (frameScopeIds entry.1).length := List.length_pos_iff.mpr hempty
    rw [hfold, Nat.zero_add]
    by_cases hspent : options.objectBudget ≤ c.tasks.length
    · have hnone : tasks.length = 0 := by omega
      simp only [hnone, if_true]
      exact ⟨rfl, rfl, rfl, rfl, rfl, ⟨tasks, rfl, hids, htasks⟩, hmaterialized, by rw [if_pos ⟨hempty, hspent⟩]⟩
    · have hsome : tasks.length ≠ 0 := by omega
      simp only [hsome, if_false]
      exact ⟨rfl, rfl, rfl, rfl, rfl, ⟨tasks, rfl, hids, htasks⟩, hmaterialized, by rw [if_neg fun h => hspent h.2]⟩

theorem nodup_frameScopeIds (frame : CallFrameDescriptor) : (frameScopeIds frame).Nodup := by
  unfold frameScopeIds
  suffices ∀ (scopes : List ScopeDescriptor) (ids : List JsString), ids.Nodup →
      (scopes.foldl (fun ids scope =>
        match scope.objectId with
        | some objectId =>
          if scope.type ∈ [js "local", js "block", js "catch"] ∧ objectId ∉ ids then ids ++ [objectId] else ids
        | none => ids) ids).Nodup from this _ [] List.nodup_nil
  intro scopes
  induction scopes with
  | nil => exact fun ids h => h
  | cons scope scopes ih =>
    intro ids hids
    apply ih
    dsimp only
    split
    · rename_i objectId _
      split
      · rename_i hnew
        exact List.nodup_append.mpr ⟨hids, List.nodup_singleton _, fun a ha b hb hab => hnew.2 (by
          rw [← List.mem_singleton.mp hb, ← hab]
          exact ha)⟩
      · exact hids
    · exact hids

/-- What the frames leave to be read. -/
structure Started (options : CaptureOptions) (frames : List CallFrameDescriptor) (c₀ c : Capture) : Prop where
  cells : c.cells = c₀.cells
  firstError : c.firstError = c₀.firstError
  visitedObjects : c.visitedObjects = c₀.visitedObjects
  stack : c.stack = c₀.stack
  requests : c.requests = c₀.requests
  tasks : ∀ t ∈ c.tasks, t.depth = 0 ∧ ∃ frame, frames[t.target]? = some frame ∧ t.objectId ∈ frameScopeIds frame
  length : c.tasks.length = min options.objectBudget (scopeCount frames)
  materialized : ∀ objectId ref, c.materializedObjects.get? objectId = some ref →
    ref < frames.length ∨ c₀.materializedObjects.get? objectId = some ref
  frameLocals : ∀ (i : ℕ) ref, c.frameLocals[i]? = some (some ref) → c₀.frameLocals[i]? = some (some ref)
  first : c.frameLocals[0]? = c₀.frameLocals[0]?
  whole : ∀ (i : ℕ) frame, frames[i]? = some frame → scopeCount (frames.take (i + 1)) ≤ options.objectBudget →
    ∀ objectId ∈ frameScopeIds frame, ∃ t ∈ c.tasks, t.target = i ∧ t.objectId = objectId
  fits : ∀ (i : ℕ) frame, frames[i]? = some frame → frameScopeIds frame ≠ [] →
    (∀ objectId ∈ frameScopeIds frame, ∃ t ∈ c.tasks, t.target = i ∧ t.objectId = objectId) →
    scopeCount (frames.take (i + 1)) ≤ options.objectBudget

theorem scopeCount_append (frames frames' : List CallFrameDescriptor) :
    scopeCount (frames ++ frames') = scopeCount frames + scopeCount frames' := by
  rw [scopeCount, List.map_append, List.sum_append]
  rfl

theorem Started.snoc {frames : List CallFrameDescriptor} {c₀ c c' : Capture} (h : Started options frames c₀ c)
    {frame : CallFrameDescriptor} (hf : Framed options (frame, frames.length) c c') :
    Started options (frames ++ [frame]) c₀ c' := by
  obtain ⟨tasks, htasks, hids, htargets⟩ := hf.queue
  have hlength : c'.tasks.length = min options.objectBudget (scopeCount (frames ++ [frame])) := by
    have hnew : tasks.length = min (options.objectBudget - c.tasks.length) (frameScopeIds frame).length := by
      rw [← List.length_take, ← hids, List.length_map]
    rw [htasks, List.length_append, hnew, h.length, scopeCount_append]
    have hone : scopeCount [frame] = (frameScopeIds frame).length := by simp [scopeCount]
    omega
  refine ⟨hf.cells.trans h.cells, hf.firstError.trans h.firstError, hf.visitedObjects.trans h.visitedObjects,
    hf.stack.trans h.stack, hf.requests.trans h.requests, ?_, hlength, ?_, ?_, ?_, ?_, ?_⟩
  · intro t ht
    rw [htasks] at ht
    rcases List.mem_append.mp ht with ht | ht
    · obtain ⟨hdepth, frame', hframe', hid⟩ := h.tasks t ht
      exact ⟨hdepth, frame', by rw [List.getElem?_append_left (List.getElem?_eq_some_iff.mp hframe').1, hframe'], hid⟩
    · obtain ⟨htarget, hdepth⟩ := htargets t ht
      refine ⟨hdepth, frame, by rw [htarget]; exact List.getElem?_concat_length, ?_⟩
      have hmem : t.objectId ∈ tasks.map CaptureTask.objectId := List.mem_map_of_mem ht
      rw [hids] at hmem
      exact List.mem_of_mem_take hmem
  · intro objectId ref hget
    rw [List.length_append]
    rcases hf.materialized objectId ref hget with rfl | hget
    · exact .inl (Nat.lt_succ_self _)
    · rcases h.materialized objectId ref hget with hlt | hget
      · exact .inl (Nat.lt_succ_of_lt hlt)
      · exact .inr hget
  · intro i ref hi
    apply h.frameLocals
    rw [hf.frameLocals] at hi
    split at hi
    · rw [List.getElem?_set] at hi
      split at hi
      · split at hi <;> cases hi
      · exact hi
    · exact hi
  · rw [hf.frameLocals]
    split
    · -- the first frame has at least one scope within the budget
      rename_i hspent
      have hbudget : 1 ≤ options.objectBudget := Nat.le_max_left _ _
      have hused := h.length
      have hframes : frames.length ≠ 0 := by
        intro hzero
        rw [List.length_eq_zero_iff.mp hzero] at hused
        have hnone : scopeCount [] = 0 := rfl
        omega
      rw [List.getElem?_set_ne hframes]
      exact h.first
    · exact h.first
  · intro i frame' hframe' hfits objectId hid
    rcases Nat.lt_or_ge i frames.length with hlt | hge
    · rw [List.getElem?_append_left hlt] at hframe'
      rw [List.take_append_of_le_length hlt] at hfits
      obtain ⟨t, ht, htarget⟩ := h.whole i frame' hframe' hfits objectId hid
      exact ⟨t, by rw [htasks]; exact List.mem_append_left _ ht, htarget⟩
    · obtain rfl : i = frames.length := by
        have := (List.getElem?_eq_some_iff.mp hframe').1
        rw [List.length_append, List.length_singleton] at this
        omega
      rw [List.getElem?_concat_length] at hframe'
      cases hframe'
      rw [List.take_of_length_le (by simp), scopeCount_append] at hfits
      have hone : scopeCount [frame] = (frameScopeIds frame).length := by simp [scopeCount]
      have hused := h.length
      have hall : tasks.map CaptureTask.objectId = frameScopeIds frame := by
        rw [hids]
        apply List.take_of_length_le
        show (frameScopeIds frame).length ≤ _
        omega
      rw [← hall] at hid
      obtain ⟨t, ht, rfl⟩ := List.mem_map.mp hid
      exact ⟨t, by rw [htasks]; exact List.mem_append_right _ ht, (htargets t ht).1, rfl⟩
  · intro i frame' hframe' hne hall
    have hi := (List.getElem?_eq_some_iff.mp hframe').1
    rw [List.length_append, List.length_singleton] at hi
    rcases Nat.lt_or_ge i frames.length with hlt | hge
    · rw [List.getElem?_append_left hlt] at hframe'
      rw [List.take_append_of_le_length hlt]
      refine h.fits i frame' hframe' hne fun objectId hid => ?_
      obtain ⟨t, ht, htarget, hobject⟩ := hall objectId hid
      rw [htasks] at ht
      rcases List.mem_append.mp ht with ht | ht
      · exact ⟨t, ht, htarget, hobject⟩
      · exact absurd ((htargets t ht).1.symm.trans htarget) hlt.ne'
    · obtain rfl : i = frames.length := by omega
      rw [List.getElem?_concat_length] at hframe'
      cases hframe'
      have hsubset : frameScopeIds frame ⊆ (frameScopeIds frame).take (options.objectBudget - c.tasks.length) := by
        intro objectId hid
        rw [← hids]
        obtain ⟨t, ht, htarget, rfl⟩ := hall objectId hid
        rw [htasks] at ht
        rcases List.mem_append.mp ht with ht | ht
        · obtain ⟨-, frame', hframe', -⟩ := h.tasks t ht
          exact absurd htarget (List.getElem?_eq_some_iff.mp hframe').1.ne
        · exact List.mem_map_of_mem ht
      have hle := (List.subperm_of_subset (nodup_frameScopeIds frame) hsubset).length_le
      have hpos := List.length_pos_iff.mpr hne
      have hused := h.length
      have hone : scopeCount [frame] = (frameScopeIds frame).length := by simp [scopeCount]
      rw [List.length_take] at hle
      rw [List.take_of_length_le (by simp), scopeCount_append]
      omega

theorem foldl_addFrame {frames : List CallFrameDescriptor} {c₀ : Capture} (htasks : c₀.tasks = []) :
    Started options frames c₀ (frames.zipIdx.foldl (addFrame options) c₀) := by
  induction frames using List.reverseRecOn with
  | nil =>
    refine ⟨rfl, rfl, rfl, rfl, rfl, ?_, ?_, fun _ _ h => .inr h, fun _ _ h => h, rfl, nofun, nofun⟩
    · show ∀ t ∈ c₀.tasks, _
      rw [htasks]
      exact List.forall_mem_nil _
    · show c₀.tasks.length = _
      rw [htasks]
      exact (Nat.min_zero _).symm
  | append_singleton frames frame ih =>
    rw [List.zipIdx_append, List.foldl_append]
    exact ih.snoc (by simpa using addFrame_framed (frame, frames.length) _)

theorem startCapture_started (options : CaptureOptions) (callFrames : List CallFrameDescriptor) :
    ∃ c₀, Started options (keptFrames options callFrames) c₀ (startCapture options callFrames) ∧
      c₀.cells = (keptFrames options callFrames).map (fun frame => ⟨.record ∅, frameScopeIds frame, 0⟩) ∧
      c₀.frameLocals = (List.range (keptFrames options callFrames).length).map some ∧
      c₀.materializedObjects = ∅ ∧ c₀.firstError = none ∧ c₀.visitedObjects = 0 ∧ c₀.requests = [] :=
  ⟨_, foldl_addFrame rfl, rfl, rfl, rfl, rfl, rfl, rfl⟩

theorem bounded_startCapture (options : CaptureOptions) (callFrames : List CallFrameDescriptor) :
    (startCapture options callFrames).Bounded options := by
  obtain ⟨c₀, hstarted, -, -, -, -, hvisited, -⟩ := startCapture_started options callFrames
  rw [Capture.Bounded, hstarted.visitedObjects, hvisited, hstarted.length, Nat.zero_add]
  exact Nat.min_le_left _ _

/-- A capture whose requests are answered ends within its budget. -/
theorem lastCapture_tasks (options : CaptureOptions) (getProperties : JsString → Properties)
    (callFrames : List CallFrameDescriptor) : (lastCapture options getProperties callFrames).tasks = [] := by
  obtain ⟨hbounded, hdone | hvisited⟩ :=
    (bounded_startCapture options callFrames).iterate getProperties options.objectBudget
  · exact hdone
  · rw [Capture.Bounded, hvisited] at hbounded
    apply List.length_eq_zero_iff.mp
    show ((Capture.step options getProperties)^[options.objectBudget] _).tasks.length = 0
    omega

end

end PauseCapture
