/-
LiveProbe/OmittedLocals.lean

The locals of a frame in a snapshot: `JdiStackCapture` and `processSnapshot` of
the JVM bridge, `_capture_stack` and `_snapshot_stack` of the Python agent.

A serializer marks an object of which it leaves members out.  Both agents cut the
locals of a frame at `maxProps` before they hand them to the serializer, which
then finds no more than `maxProps` and marks nothing: a frame whose locals were
cut looks like one that has no others.  Only the variables of the paused frame
of a Python hit are copied whole, so only their object is marked.
-/
import LiveProbe.JvmSerializer
import LiveProbe.PythonRuntime

open JsString

/-- Where a cut at `maxProps` leaves out some of `count` locals, the object is marked. -/
def MarksCut (maxProps count : ℕ) (node : SerializedNode) : Prop :=
  maxProps < count → ∃ members, node = .obj members true

theorem marksCut_obj {maxProps count : ℕ} {members : List (JsString × SerializedNode)} {marker : Bool} :
    MarksCut maxProps count (.obj members marker) ↔ count ≤ maxProps ∨ marker = true := by
  rw [MarksCut, ← not_lt, or_iff_not_imp_left, not_not]
  refine imp_congr_right fun _ => ⟨?_, ?_⟩
  · rintro ⟨_, h⟩
    exact (SerializedNode.obj.inj h).2
  · rintro rfl
    exact ⟨members, rfl⟩

/-! ### The JVM bridge -/

namespace JvmBridge

/-- Why the locals of a frame cannot be read. -/
inductive LocalsError
  | absentInformation
  | runtime

structure JdiLocation where
  fn : JsString
  file : JsString
  line : ℤ

/-- A frame of the paused thread; one that is stale has no location. -/
structure JdiFrame (Value : Type) where
  location : Option JdiLocation
  locals : Except LocalsError (List (JsString × Value))

structure RawStackFrame (ν : Type) where
  fn : JsString
  file : JsString
  line : ℤ
  captured : Option (JsMap JsString ν)

/-- `ProbeDefinition` of a snapshot probe, as far as a capture reads it. -/
structure SnapshotProbe where
  includeStackLocals : Bool
  stackFrameLimit : ℕ

/-- `RawHit` -/
structure SnapshotHit (ν : Type) where
  captured : JsMap JsString ν
  stack : List (RawStackFrame ν)

structure SnapshotFrame where
  fn : JsString
  file : JsString
  line : ℤ
  captured : Option SerializedNode

/-- The variables and the stack of a snapshot event. -/
structure SnapshotEvent where
  captured : SerializedNode
  stack : List SnapshotFrame

/-- A value of a frame, or the map of its locals. -/
inductive FrameValue (ν : Type)
  | locals (members : List (JsString × ν))
  | value (v : ν)
  deriving DecidableEq

/-- What is found of a value, when its parts are seen as `f` has them. -/
def Shape.through {ν μ : Type} (f : ν → μ) : Shape ν → Shape μ
  | .redacted => .redacted
  | .null => .null
  | .function => .function
  | .string s => .string s
  | .character c => .character c
  | .boolean b => .boolean b
  | .number n => .number n
  | .notFinite => .notFinite
  | .reference typeName => .reference typeName
  | .summary typeName fields => .summary typeName (fields.map fun field => (field.1, f field.2))
  | .map entries => .map (entries.map fun entry => (entry.1, f entry.2))
  | .iterable items => .iterable (items.map f)
  | .array items => .array (items.map f)
  | .unsupported => .unsupported

section

variable {Value ν : Type} [DecidableEq ν] (read : Value → ν) (lower : JsString → JsString) (view : ν → Shape ν)
  (config : SerializerLimits) (maxStackFrames : ℕ)

def FrameValue.shape : FrameValue ν → Shape (FrameValue ν)
  | .locals members => .map (members.map fun m => (some m.1, .value m.2))
  | .value v => (view v).through .value

/-- `SafeSerializer.serialize` of a map of locals -/
def serializeLocals (members : JsMap JsString ν) : SerializedNode :=
  walk lower (FrameValue.shape view) config (config.maxDepth + 1) [] none (.locals members.entries)

/-- `readLocals`, from the visible variables of a frame. -/
def readLocals (visible : List (JsString × Value)) : JsMap JsString ν :=
  (visible.take config.maxProps).foldl (fun locals v => locals.set v.1 (read v.2)) ∅

def readFrame (frame : JdiFrame Value) : Except LocalsError (JsMap JsString ν) :=
  frame.locals.map (readLocals read config)

/-- `JdiStackCapture.capture`: the frame with its place in the thread, and the stack so far. -/
def captureFrame (frameLocalLimit : ℕ) (firstVariables : JsMap JsString ν) (stack : List (RawStackFrame ν))
    (entry : JdiFrame Value × ℕ) : List (RawStackFrame ν) :=
  match entry.1.location with
  | none => stack
  | some location =>
    if location.line ≤ 0 then stack
    else
      let captured :=
        if stack.length < frameLocalLimit then
          if entry.2 = 0 then some firstVariables else (readFrame read config entry.1).toOption
        else none
      stack ++ [⟨location.fn, location.file, location.line, captured⟩]

def captureStack (frameLocalLimit : ℕ) (firstVariables : JsMap JsString ν) (frames : List (JdiFrame Value)) :
    List (RawStackFrame ν) :=
  (frames.take maxStackFrames).zipIdx.foldl (captureFrame read config frameLocalLimit firstVariables) []

/-- `capture` of a snapshot probe, once the hit is granted. -/
def capture (probe : SnapshotProbe) (frames : List (JdiFrame Value)) : Option (SnapshotHit ν) := do
  let frame ← frames.head?
  let first ←
    match readFrame read config frame with
    | .ok locals => some locals
    | .error _ => if probe.includeStackLocals then some ∅ else none
  let frameLocalLimit := if probe.includeStackLocals then probe.stackFrameLimit else 0
  return ⟨first, captureStack read config maxStackFrames frameLocalLimit first frames⟩

/-- `processSnapshot` -/
def processSnapshot (probe : SnapshotProbe) (hit : SnapshotHit ν) : SnapshotEvent :=
  let selected := if probe.includeStackLocals then hit.stack.take probe.stackFrameLimit else hit.stack
  { captured := serializeLocals lower view config hit.captured
    stack := (selected.filter fun frame => 0 < frame.line).map fun frame =>
      { fn := frame.fn, file := frame.file, line := frame.line
        captured :=
          if probe.includeStackLocals then some (serializeLocals lower view config (frame.captured.getD ∅))
          else none } }

/-- The event of a hit, when the hit can be captured. -/
def snapshotEvent (probe : SnapshotProbe) (frames : List (JdiFrame Value)) : Option SnapshotEvent :=
  (capture read config maxStackFrames probe frames).map (processSnapshot lower view config probe)

/-- The frames that a stack holds. -/
def stackFrames (frames : List (JdiFrame Value)) : List (JdiFrame Value) :=
  (frames.take maxStackFrames).filter fun frame => frame.location.any fun location => 0 < location.line

/-- Each object of locals in the event is marked when locals of its frame were cut. -/
structure MarksOmitted (frames : List (JdiFrame Value)) (event : SnapshotEvent) : Prop where
  top : ∀ frame visible, frames.head? = some frame → frame.locals = .ok visible →
    MarksCut config.maxProps visible.length event.captured
  stack : ∀ (i : ℕ) frame visible shown node, (stackFrames maxStackFrames frames)[i]? = some frame →
    frame.locals = .ok visible → event.stack[i]? = some shown → shown.captured = some node →
      MarksCut config.maxProps visible.length node

/-- No frame that the event shows has more locals than are kept. -/
def LocalsFit (probe : SnapshotProbe) (frames : List (JdiFrame Value)) : Prop :=
  (∀ frame visible, frames.head? = some frame → frame.locals = .ok visible → visible.length ≤ config.maxProps) ∧
    (probe.includeStackLocals = true → ∀ frame ∈ (stackFrames maxStackFrames frames).take probe.stackFrameLimit,
      ∀ visible, frame.locals = .ok visible → visible.length ≤ config.maxProps)

variable {read lower view config maxStackFrames}

/-- A serialized map of locals is marked when it has more than are kept. -/
theorem serializeLocals_eq (members : JsMap JsString ν) : ∃ c, serializeLocals lower view config members =
    .obj c (decide (config.maxProps < members.entries.length)) := by
  have hproperties : (members.entries.map fun m => (some m.1, FrameValue.value m.2)).filterMap
      (fun entry => entry.1.map fun key => (key, entry.2)) =
        members.entries.map fun m => (m.1, FrameValue.value m.2) := by
    rw [List.filterMap_map]
    exact List.filterMap_eq_map_iff_forall_eq_some.mpr fun _ _ => rfl
  unfold serializeLocals walk
  simp only [FrameValue.shape, Option.any_none, Bool.false_eq_true, if_false, List.not_mem_nil, hproperties,
    List.length_map]
  exact ⟨_, rfl⟩

omit [DecidableEq ν] in
/-- No more locals are read than are kept. -/
theorem readLocals_length (visible : List (JsString × Value)) :
    (readLocals read config visible).entries.length ≤ config.maxProps := by
  have hfold : readLocals read config visible =
      ((visible.take config.maxProps).map fun v => (v.1, read v.2)).foldl (fun m e => m.set e.1 e.2) ∅ := by
    rw [List.foldl_map]
    rfl
  have hsize := JsMap.size_foldl_set_le ((visible.take config.maxProps).map fun v => (v.1, read v.2)) ∅
  rw [← hfold, List.length_map, List.length_take] at hsize
  have hempty : (∅ : JsMap JsString ν).size = 0 := rfl
  have hkept : (readLocals read config visible).size ≤ config.maxProps := by omega
  exact hkept

/-- The object of locals that were read is never marked. -/
theorem marksCut_readLocals (visible : List (JsString × Value)) {count : ℕ} :
    MarksCut config.maxProps count (serializeLocals lower view config (readLocals read config visible)) ↔
      count ≤ config.maxProps := by
  obtain ⟨c, hc⟩ := @serializeLocals_eq ν _ lower view config (readLocals read config visible)
  rw [hc, marksCut_obj, decide_eq_true_iff]
  exact or_iff_left (readLocals_length visible).not_gt

omit [DecidableEq ν] in
/-- The frames that have a line are stacked, with their locals up to the limit. -/
theorem foldl_captureFrame {frameLocalLimit : ℕ} {firstVariables : JsMap JsString ν} (frames : List (JdiFrame Value))
    (hfirst : ∀ frame visible, frames.head? = some frame → frame.locals = .ok visible →
      firstVariables = readLocals read config visible) :
    let located := frames.filter fun frame => frame.location.any fun location => 0 < location.line
    let stack := frames.zipIdx.foldl (captureFrame read config frameLocalLimit firstVariables) []
    stack.length = located.length ∧ ∀ (i : ℕ) frame raw, located[i]? = some frame → stack[i]? = some raw →
      0 < raw.line ∧ ∀ visible, frame.locals = .ok visible → i < frameLocalLimit →
        raw.captured = some (readLocals read config visible) := by
  induction frames using List.reverseRecOn with
  | nil => exact ⟨rfl, nofun⟩
  | append_singleton frames frame ih =>
    obtain ⟨hlength, hstack⟩ := ih fun f visible hf => hfirst f visible (by
      rw [List.head?_append, hf]
      rfl)
    intro located stack
    have hfold : stack = captureFrame read config frameLocalLimit firstVariables
        (frames.zipIdx.foldl (captureFrame read config frameLocalLimit firstVariables) []) (frame, frames.length) := by
      show (List.zipIdx _).foldl _ _ = _
      rw [List.zipIdx_append, List.foldl_append, Nat.zero_add]
      rfl
    have hfilter : located = (frames.filter fun frame => frame.location.any fun location => 0 < location.line) ++
        [frame].filter fun frame => frame.location.any fun location => 0 < location.line :=
      List.filter_append ..
    generalize frames.zipIdx.foldl (captureFrame read config frameLocalLimit firstVariables) [] = before
      at hlength hstack hfold
    generalize (frames.filter fun frame => frame.location.any fun location => 0 < location.line) = earlier
      at hlength hstack hfilter
    clear_value located stack
    unfold captureFrame at hfold
    dsimp only at hfold
    rcases hlocation : frame.location with - | location
    · simp only [hlocation] at hfold
      simp only [List.filter_cons, hlocation, Option.any_none, Bool.false_eq_true, if_false, List.filter_nil,
        List.append_nil] at hfilter
      rw [hfold, hfilter]
      exact ⟨hlength, hstack⟩
    · simp only [hlocation] at hfold
      by_cases hline : location.line ≤ 0
      · rw [if_pos hline] at hfold
        simp only [List.filter_cons, hlocation, Option.any_some, decide_eq_true_eq, not_lt.mpr hline, if_false,
          List.filter_nil, List.append_nil] at hfilter
        rw [hfold, hfilter]
        exact ⟨hlength, hstack⟩
      · rw [if_neg hline] at hfold
        simp only [List.filter_cons, hlocation, Option.any_some, decide_eq_true_eq, not_le.mp hline, if_true,
          List.filter_nil] at hfilter
        rw [hfold, hfilter]
        refine ⟨by rw [List.length_append, List.length_append, hlength]; rfl, fun i f raw hf hraw => ?_⟩
        rcases Nat.lt_trichotomy i before.length with hlt | rfl | hgt
        · rw [List.getElem?_append_left (hlength ▸ hlt)] at hf
          rw [List.getElem?_append_left hlt] at hraw
          exact hstack i f raw hf hraw
        · rw [hlength, List.getElem?_concat_length] at hf
          rw [List.getElem?_concat_length] at hraw
          obtain rfl := Option.some.inj hf
          obtain rfl := Option.some.inj hraw
          refine ⟨not_le.mp hline, fun visible hvisible hlimit => ?_⟩
          dsimp only
          rw [if_pos hlimit]
          split
          · next hzero =>
            have hnil : frames = [] := List.length_eq_zero_iff.mp hzero
            rw [hfirst frame visible (by rw [hnil]; rfl) hvisible]
          · rw [readFrame, hvisible]
            rfl
        · rw [List.getElem?_eq_none (by rw [List.length_append]; exact hgt)] at hraw
          cases hraw

/-- What the event shows of a frame is what was read of it. -/
theorem processSnapshot_stack {probe : SnapshotProbe} {frames : List (JdiFrame Value)} {firstVariables : JsMap JsString ν}
    (hfirst : ∀ frame visible, frames.head? = some frame → frame.locals = .ok visible →
      firstVariables = readLocals read config visible) (hlocals : probe.includeStackLocals = true) {i : ℕ}
    {frame : JdiFrame Value} {visible : List (JsString × Value)}
    (hframe : (stackFrames maxStackFrames frames)[i]? = some frame) (hvisible : frame.locals = .ok visible) :
    let stack := (processSnapshot lower view config probe ⟨firstVariables,
      captureStack read config maxStackFrames probe.stackFrameLimit firstVariables frames⟩).stack
    if i < probe.stackFrameLimit then
      ∃ shown, stack[i]? = some shown ∧
        shown.captured = some (serializeLocals lower view config (readLocals read config visible))
    else stack[i]? = none := by
  intro stack
  obtain ⟨hlength, hstack⟩ := @foldl_captureFrame Value ν read config probe.stackFrameLimit firstVariables
    (frames.take maxStackFrames) fun frame visible hhead => hfirst frame visible (by
      rw [List.head?_take] at hhead
      split at hhead
      · cases hhead
      · exact hhead)
  have hraw : stack = (((captureStack read config maxStackFrames probe.stackFrameLimit firstVariables frames).take
      probe.stackFrameLimit).filter fun frame => 0 < frame.line).map fun frame =>
        { fn := frame.fn, file := frame.file, line := frame.line
          captured := some (serializeLocals lower view config (frame.captured.getD ∅)) } := by
    show (processSnapshot lower view config probe _).stack = _
    simp only [processSnapshot, hlocals, if_true]
  rw [List.filter_eq_self.mpr] at hraw
  · rw [hraw, List.getElem?_map, List.getElem?_take]
    split
    · next hlt =>
      obtain ⟨raw, hraw⟩ : ∃ raw, (captureStack read config maxStackFrames probe.stackFrameLimit firstVariables
          frames)[i]? = some raw := by
        refine ⟨_, List.getElem?_eq_getElem ?_⟩
        exact hlength ▸ (List.getElem?_eq_some_iff.mp hframe).1
      rw [hraw]
      obtain ⟨-, hcaptured⟩ := hstack i frame raw hframe hraw
      refine ⟨_, rfl, ?_⟩
      dsimp only
      rw [hcaptured visible hvisible hlt]
      rfl
    · rfl
  · intro raw hmem
    obtain ⟨j, hj⟩ := List.getElem?_of_mem (List.mem_of_mem_take hmem)
    have hlt := (List.getElem?_eq_some_iff.mp hj).1
    exact decide_eq_true (hstack j _ raw (List.getElem?_eq_getElem (hlength ▸ hlt)) hj).1

/-- The event of a captured hit marks what was cut only where nothing was. -/
theorem marksOmitted_processSnapshot {probe : SnapshotProbe} {frames : List (JdiFrame Value)}
    {firstVariables : JsMap JsString ν} (hfirst : ∀ frame visible, frames.head? = some frame →
      frame.locals = .ok visible → firstVariables = readLocals read config visible) :
    MarksOmitted config maxStackFrames frames (processSnapshot lower view config probe ⟨firstVariables,
      captureStack read config maxStackFrames (if probe.includeStackLocals then probe.stackFrameLimit else 0)
        firstVariables frames⟩) ↔ LocalsFit config maxStackFrames probe frames := by
  constructor
  · rintro ⟨htop, hstack⟩
    refine ⟨fun frame visible hhead hvisible => ?_, fun hlocals frame hmem visible hvisible => ?_⟩
    · have hmarks := htop frame visible hhead hvisible
      dsimp only [processSnapshot] at hmarks
      rw [hfirst frame visible hhead hvisible] at hmarks
      exact (marksCut_readLocals visible).mp hmarks
    · rw [if_pos hlocals] at hstack
      obtain ⟨i, hi⟩ := List.getElem?_of_mem hmem
      rw [List.getElem?_take] at hi
      split at hi
      · next hlt =>
        have hshown := @processSnapshot_stack Value ν _ read lower view config maxStackFrames probe frames
          firstVariables hfirst hlocals i frame visible hi hvisible
        dsimp only at hshown
        rw [if_pos hlt] at hshown
        obtain ⟨shown, hget, hcaptured⟩ := hshown
        exact (marksCut_readLocals visible).mp (hstack i frame visible shown _ hi hvisible hget hcaptured)
      · cases hi
  · rintro ⟨htop, hstack⟩
    refine ⟨fun frame visible hhead hvisible => ?_, fun i frame visible shown node hi hvisible hget hcaptured => ?_⟩
    · dsimp only [processSnapshot]
      rw [hfirst frame visible hhead hvisible]
      exact (marksCut_readLocals visible).mpr (htop frame visible hhead hvisible)
    · by_cases hlocals : probe.includeStackLocals = true
      · rw [if_pos hlocals] at hget
        have hshown := @processSnapshot_stack Value ν _ read lower view config maxStackFrames probe frames
          firstVariables hfirst hlocals i frame visible hi hvisible
        dsimp only at hshown
        split at hshown
        · next hlt =>
          obtain ⟨shown', hget', hcaptured'⟩ := hshown
          obtain rfl := Option.some.inj (hget.symm.trans hget')
          obtain rfl := Option.some.inj (hcaptured.symm.trans hcaptured')
          refine (marksCut_readLocals visible).mpr (hstack hlocals frame ?_ visible hvisible)
          exact List.mem_of_getElem? (i := i) (by rw [List.getElem?_take, if_pos hlt, hi])
        · rw [hget] at hshown
          cases hshown
      · -- without stack locals the frames of the event have no variables
        obtain ⟨raw, -, hraw⟩ := List.mem_map.mp (List.mem_of_getElem? hget)
        rw [← hraw] at hcaptured
        dsimp only at hcaptured
        rw [if_neg hlocals] at hcaptured
        cases hcaptured

theorem marksOmitted_iff {probe : SnapshotProbe} {frames : List (JdiFrame Value)} :
    (∀ event ∈ snapshotEvent read lower view config maxStackFrames probe frames,
      MarksOmitted config maxStackFrames frames event) ↔ LocalsFit config maxStackFrames probe frames := by
  unfold snapshotEvent capture
  rcases hhead : frames.head? with - | frame
  · have hnil : frames = [] := List.head?_eq_none_iff.mp hhead
    refine iff_of_true nofun ⟨fun frame visible h => ?_, fun _ frame hmem => ?_⟩
    · rw [hhead] at h
      cases h
    · rw [hnil] at hmem
      simp [stackFrames] at hmem
  · have hhead' : ∀ {f visible}, frames.head? = some f → f.locals = .ok visible → frame.locals = .ok visible := by
      intro f visible hf hvisible
      obtain rfl := Option.some.inj (hhead.symm.trans hf)
      exact hvisible
    rcases hlocals : frame.locals with error | visible
    · by_cases hinclude : probe.includeStackLocals = true
      · simp only [readFrame, hlocals, Except.map, hinclude, if_true, Option.bind_eq_bind, Option.bind_some,
          Option.pure_def, Option.map_some, Option.mem_some_iff, forall_eq']
        have hmarks := @marksOmitted_processSnapshot Value ν _ read lower view config maxStackFrames probe frames ∅
          fun f visible hf hvisible => by
            have hok := hhead' hf hvisible
            rw [hlocals] at hok
            cases hok
        rw [if_pos hinclude] at hmarks
        exact hmarks
      · -- the hit cannot be captured
        simp only [readFrame, hlocals, Except.map, hinclude, if_false, Option.bind_eq_bind, Option.bind_some,
          Option.bind_none, Option.map_none, Bool.false_eq_true]
        refine iff_of_true nofun ⟨fun f visible hf hvisible => ?_, fun h => absurd h hinclude⟩
        have hok := hhead' hf hvisible
        rw [hlocals] at hok
        cases hok
    · simp only [readFrame, hlocals, Except.map, Option.bind_eq_bind, Option.bind_some, Option.pure_def,
        Option.map_some, Option.mem_some_iff, forall_eq']
      refine marksOmitted_processSnapshot fun f visible' hf hvisible => ?_
      have hok := hhead' hf hvisible
      rw [hlocals] at hok
      rw [Except.ok.inj hok]

end

end JvmBridge

/-! ### The Python agent -/

namespace PythonAgent

/-- A frame of the interpreter with its `f_locals`; a name that is no `str` is nothing. -/
structure PyFrame (ν : Type) where
  fn : PyString
  file : PyString
  line : ℕ
  locals : List (Option PyString × ν)

/-- `StackEntry` -/
structure FrameEntry (ν : Type) where
  fn : PyString
  file : PyString
  line : ℕ
  captured : Option (List (Option PyString × ν))

/-- `RawHit` -/
structure SnapshotHit (ν : Type) where
  captured : List (Option PyString × ν)
  stack : List (FrameEntry ν)

/-- The variables and the stack of a snapshot event. -/
structure SnapshotEvent where
  captured : Sanitized
  stack : List RenderedFrame

/-- A value of a frame, or the `dict` of its locals. -/
inductive FrameValue (ν : Type)
  | locals (members : List (Option PyString × ν))
  | value (v : ν)

/-- What is found of a value, when its parts are seen as `f` has them. -/
def Shape.through {ν μ : Type} (f : ν → μ) : Shape ν → Shape μ
  | .none => .none
  | .bool b => .bool b
  | .number n => .number n
  | .str s => .str s
  | .function => .function
  | .sequence items => .sequence (items.map f)
  | .record members => .record (members.map fun m => (m.1, f m.2))
  | .unsupported => .unsupported

section

variable {ν : Type} (unicode : Unicode) (heap : Heap ν) (config : SerializerLimits) (stackFrameDepth maxStackFrames : ℕ)

/-- The captured values; a `dict` of locals is no other object. -/
def frameHeap : Heap (FrameValue ν) where
  view
    | .locals members => .record (members.map fun m => (m.1, .value m.2))
    | .value v => (heap.view v).through .value
  same
    | .value v, .value w => heap.same v w
    | _, _ => false

/-- `serialize` of a `dict` of locals -/
def serializeLocals (members : List (Option PyString × ν)) : Sanitized :=
  serialize unicode (frameHeap heap) config (.locals members) none

/-- `bounded_locals` -/
def boundedLocals (values : List (Option PyString × ν)) : List (Option PyString × ν) := values.take config.maxProps

/-- The loop of `_capture_stack`, after a number of entries. -/
def captureStack (frameLocalLimit : ℕ) (firstVariables : List (Option PyString × ν)) :
    ℕ → List (PyFrame ν) → List (FrameEntry ν)
  | _, [] => []
  | entries, frame :: rest =>
    if entries < min stackFrameDepth maxStackFrames then
      { fn := frame.fn, file := frame.file, line := frame.line
        captured :=
          if entries < frameLocalLimit then
            some (boundedLocals config (if entries = 0 then firstVariables else frame.locals))
          else none } :: captureStack frameLocalLimit firstVariables (entries + 1) rest
    else []

/-- The part of `_on_line` that captures, with the probes that are to be served. -/
def captureLine (candidates : List PyProbe) (frames : List (PyFrame ν)) : Option (SnapshotHit ν) := do
  let frame ← frames.head?
  let limits := (candidates.filter fun probe => probe.kind = .snapshot && probe.includeStackLocals).map
    PyProbe.stackFrameLimit
  return ⟨frame.locals,
    captureStack config stackFrameDepth maxStackFrames (limits.foldr max 0) frame.locals 0 frames⟩

/-- The snapshot event of `_process_hit`. -/
def processSnapshot (probe : PyProbe) (hit : SnapshotHit ν) : SnapshotEvent :=
  let selected := if probe.includeStackLocals then hit.stack.take probe.stackFrameLimit else hit.stack
  { captured := serializeLocals unicode heap config hit.captured
    stack := selected.map fun entry =>
      { fn := entry.fn, file := entry.file, line := entry.line
        captured :=
          if probe.includeStackLocals then
            some (serializeLocals unicode heap config (entry.captured.getD []))
          else none } }

/-- Each object of locals in the event is marked when locals of its frame were cut. -/
structure MarksOmitted (frames : List (PyFrame ν)) (event : SnapshotEvent) : Prop where
  top : ∀ frame, frames.head? = some frame → MarksCut config.maxProps frame.locals.length event.captured.wire
  stack : ∀ (i : ℕ) frame shown node, frames[i]? = some frame → event.stack[i]? = some shown →
    shown.captured = some node → MarksCut config.maxProps frame.locals.length node.wire

/-- No frame of the stack that the event shows has more locals than are kept, or one of
those that are kept is left out for its name and the object marked for it. -/
def LocalsFit (probe : PyProbe) (frames : List (PyFrame ν)) : Prop :=
  probe.includeStackLocals = true →
    ∀ frame ∈ (frames.take (min stackFrameDepth maxStackFrames)).take probe.stackFrameLimit,
      frame.locals.length ≤ config.maxProps ∨ (boundedLocals config frame.locals).any (·.1.isNone) = true

variable {unicode heap config stackFrameDepth maxStackFrames}

theorem serializeLocals_eq (members : List (Option PyString × ν)) :
    ∃ c, (serializeLocals unicode heap config members).wire =
      .obj c (decide (config.maxProps < members.length) ||
        (boundedLocals config members).any fun member => member.1.isNone) := by
  unfold serializeLocals serialize visit
  simp only [frameHeap, Option.any_none, Bool.false_eq_true, if_false, List.any_nil, List.length_map, Sanitized.wire,
    ← List.map_take, List.any_map]
  exact ⟨_, rfl⟩

/-- The object of the variables of the paused frame is marked when some are cut. -/
theorem marksCut_whole (members : List (Option PyString × ν)) :
    MarksCut config.maxProps members.length (serializeLocals unicode heap config members).wire := by
  obtain ⟨c, hc⟩ := @serializeLocals_eq ν unicode heap config members
  rw [hc, marksCut_obj, Bool.or_eq_true, decide_eq_true_eq]
  exact (Nat.lt_or_ge config.maxProps members.length).symm.imp_right .inl

/-- That of a frame of the stack only where a name is no `str`. -/
theorem marksCut_bounded (members : List (Option PyString × ν)) :
    MarksCut config.maxProps members.length (serializeLocals unicode heap config (boundedLocals config members)).wire ↔
      members.length ≤ config.maxProps ∨ (boundedLocals config members).any (·.1.isNone) = true := by
  obtain ⟨c, hc⟩ := @serializeLocals_eq ν unicode heap config (boundedLocals config members)
  have hlength : ¬ config.maxProps < (boundedLocals config members).length := by
    rw [boundedLocals, List.length_take]
    omega
  have htwice : boundedLocals config (boundedLocals config members) = boundedLocals config members := by
    rw [boundedLocals, boundedLocals, List.take_take, min_self]
  rw [hc, marksCut_obj, htwice, decide_eq_false hlength, Bool.false_or]

theorem captureStack_getElem? {frameLocalLimit : ℕ} {firstVariables : List (Option PyString × ν)}
    (frames : List (PyFrame ν)) (entries i : ℕ) :
    (captureStack config stackFrameDepth maxStackFrames frameLocalLimit firstVariables entries frames)[i]? =
      (frames.take (min stackFrameDepth maxStackFrames - entries))[i]?.map fun frame =>
        { fn := frame.fn, file := frame.file, line := frame.line
          captured :=
            if entries + i < frameLocalLimit then
              some (boundedLocals config (if entries + i = 0 then firstVariables else frame.locals))
            else none } := by
  induction frames generalizing entries i with
  | nil => simp [captureStack]
  | cons frame rest ih =>
    unfold captureStack
    split
    · next hlt =>
      rw [show min stackFrameDepth maxStackFrames - entries =
        min stackFrameDepth maxStackFrames - (entries + 1) + 1 by omega, List.take_succ_cons]
      cases i with
      | zero => rfl
      | succ i =>
        rw [List.getElem?_cons_succ, List.getElem?_cons_succ, ih, show entries + 1 + i = entries + (i + 1) by omega]
    · next hge =>
      rw [show min stackFrameDepth maxStackFrames - entries = 0 by omega, List.take_zero]
      rfl

/-- The event of one probe of a hit whose frames are captured deep enough. -/
theorem marksOmitted_processSnapshot {probe : PyProbe} {frame : PyFrame ν} {rest : List (PyFrame ν)}
    {frameLocalLimit : ℕ} (hlimit : probe.includeStackLocals = true → probe.stackFrameLimit ≤ frameLocalLimit) :
    MarksOmitted config (frame :: rest) (processSnapshot unicode heap config probe
      ⟨frame.locals, captureStack config stackFrameDepth maxStackFrames frameLocalLimit frame.locals 0
        (frame :: rest)⟩) ↔ LocalsFit config stackFrameDepth maxStackFrames probe (frame :: rest) := by
  -- the entry of a frame within the limit of the probe
  have hentry : ∀ (i : ℕ) f, (frame :: rest)[i]? = some f → probe.includeStackLocals = true →
      (processSnapshot unicode heap config probe ⟨frame.locals, captureStack config stackFrameDepth maxStackFrames
        frameLocalLimit frame.locals 0 (frame :: rest)⟩).stack[i]? =
        if i < probe.stackFrameLimit ∧ i < min stackFrameDepth maxStackFrames then
          some ⟨f.fn, f.file, f.line, some (serializeLocals unicode heap config (boundedLocals config f.locals))⟩
        else none := by
    intro i f hf hlocals
    simp only [processSnapshot, hlocals, if_true]
    rw [List.getElem?_map, List.getElem?_take, captureStack_getElem?, Nat.sub_zero, List.getElem?_take, hf,
      Nat.zero_add]
    by_cases hlt : i < probe.stackFrameLimit
    · by_cases hstack : i < min stackFrameDepth maxStackFrames
      · have hfirst : (if i = 0 then frame.locals else f.locals) = f.locals := by
          split
          · next hzero =>
            rw [hzero] at hf
            rw [Option.some.inj hf]
          · rfl
        rw [if_pos hlt, if_pos hstack, if_pos ⟨hlt, hstack⟩, Option.map_some, Option.map_some,
          if_pos (hlt.trans_le (hlimit hlocals)), hfirst]
        rfl
      · rw [if_pos hlt, if_neg hstack, if_neg fun h => hstack h.2]
        rfl
    · rw [if_neg hlt, if_neg fun h => hlt h.1]
      rfl
  constructor
  · rintro ⟨-, hstack⟩ hlocals f hmem
    obtain ⟨i, hi⟩ := List.getElem?_of_mem hmem
    rw [List.getElem?_take, List.getElem?_take] at hi
    split at hi
    · next hlt =>
      split at hi
      · next hdepth =>
        have hshown := hentry i f hi hlocals
        rw [if_pos ⟨hlt, hdepth⟩] at hshown
        exact (marksCut_bounded f.locals).mp (hstack i f _ _ hi hshown rfl)
      · cases hi
    · cases hi
  · intro hfit
    refine ⟨fun f hf => ?_, fun i f shown node hi hget hcaptured => ?_⟩
    · obtain rfl := Option.some.inj hf
      exact marksCut_whole frame.locals
    · by_cases hlocals : probe.includeStackLocals = true
      · have hshown := hentry i f hi hlocals
        rw [hget] at hshown
        split at hshown
        · next hlt =>
          obtain rfl := Option.some.inj hshown
          obtain rfl := Option.some.inj hcaptured
          refine (marksCut_bounded f.locals).mpr (hfit hlocals f ?_)
          refine List.mem_of_getElem? (i := i) ?_
          rw [List.getElem?_take, if_pos hlt.1, List.getElem?_take, if_pos hlt.2, hi]
        · cases hshown
      · obtain ⟨entry, -, hentry⟩ := List.mem_map.mp (List.mem_of_getElem? hget)
        rw [← hentry] at hcaptured
        dsimp only at hcaptured
        rw [if_neg hlocals] at hcaptured
        cases hcaptured

theorem le_foldr_max {limits : List ℕ} {limit : ℕ} (h : limit ∈ limits) : limit ≤ limits.foldr max 0 := by
  induction limits with
  | nil => cases h
  | cons first limits ih =>
    rcases List.mem_cons.mp h with rfl | h
    · exact le_max_left _ _
    · exact (ih h).trans (le_max_right _ _)

/-- A probe of the hit has its frames captured deep enough. -/
theorem marksOmitted_iff {candidates : List PyProbe} {frames : List (PyFrame ν)} {probe : PyProbe}
    (hprobe : probe ∈ candidates) (hkind : probe.kind = .snapshot) :
    (∀ hit ∈ captureLine config stackFrameDepth maxStackFrames candidates frames,
      MarksOmitted config frames (processSnapshot unicode heap config probe hit)) ↔
    LocalsFit config stackFrameDepth maxStackFrames probe frames := by
  cases frames with
  | nil => exact iff_of_true nofun fun _ f hf => by simp at hf
  | cons frame rest =>
    unfold captureLine
    simp only [List.head?_cons, Option.bind_eq_bind, Option.bind_some, Option.pure_def, Option.mem_some_iff,
      forall_eq']
    refine marksOmitted_processSnapshot fun hlocals => ?_
    refine le_foldr_max (List.mem_map.mpr ⟨probe, List.mem_filter.mpr ⟨hprobe, ?_⟩, rfl⟩)
    rw [hlocals, Bool.and_true]
    exact decide_eq_true hkind

end

end PythonAgent

/-! ### Both agents -/

/-- **When omitted locals are marked.**  The events of the JVM bridge mark every cut
exactly when there is none; that of a probe of the Python agent exactly when there is none
in the frames of the stack that it shows, but for those that are marked for a name. -/
theorem omittedLocals_marked_iff {Value ν μ : Type} [DecidableEq ν] (read : Value → ν) (lower : JsString → JsString)
    (view : ν → JvmBridge.Shape ν) (config : JvmBridge.SerializerLimits) (maxStackFrames : ℕ)
    (probe : JvmBridge.SnapshotProbe) (frames : List (JvmBridge.JdiFrame Value)) (unicode : PythonAgent.Unicode)
    (heap : PythonAgent.Heap μ) (pyConfig : PythonAgent.SerializerLimits) (stackFrameDepth pyMaxStackFrames : ℕ)
    (candidates : List PythonAgent.PyProbe) (pyFrames : List (PythonAgent.PyFrame μ)) :
    ((∀ event ∈ JvmBridge.snapshotEvent read lower view config maxStackFrames probe frames,
        JvmBridge.MarksOmitted config maxStackFrames frames event) ↔
      JvmBridge.LocalsFit config maxStackFrames probe frames) ∧
    ∀ probe ∈ candidates, probe.kind = .snapshot →
      ((∀ hit ∈ PythonAgent.captureLine pyConfig stackFrameDepth pyMaxStackFrames candidates pyFrames,
          PythonAgent.MarksOmitted pyConfig pyFrames (PythonAgent.processSnapshot unicode heap pyConfig probe hit)) ↔
        PythonAgent.LocalsFit pyConfig stackFrameDepth pyMaxStackFrames probe pyFrames) :=
  ⟨JvmBridge.marksOmitted_iff, fun _ hprobe hkind => PythonAgent.marksOmitted_iff hprobe hkind⟩

/-! ### A frame with two locals, of which one is kept -/

namespace Sample

def oneProp : JvmBridge.SerializerLimits :=
  { JvmBridge.Config.new id [] [] with maxDepth := 3, maxArray := 3, maxProps := 1, maxString := 1024 }

/-- A frame of two locals. -/
def twoLocals : JvmBridge.JdiFrame Unit := ⟨some ⟨js "f", js "F.java", 1⟩, .ok [(js "a", ()), (js "b", ())]⟩

/-- The second local is left out, and nothing marks it. -/
theorem twoLocals_unmarked : ¬ ∀ event ∈ JvmBridge.snapshotEvent (fun _ => ()) id (fun _ => .null) oneProp 8 ⟨false, 3⟩
    [twoLocals], JvmBridge.MarksOmitted oneProp 8 [twoLocals] event := by
  rw [JvmBridge.marksOmitted_iff]
  intro hfit
  have hle := hfit.1 twoLocals _ rfl rfl
  exact absurd hle (by decide)

end Sample
