/-
LiveProbe/Capture.lean

A capture: from location operations to the record of a hit.

The planner turns the operations of a variable into those of the program that
runs at the probed address, the loader lays them out in a plan of fixed size,
and the program (`liveprobeSnapshot`) runs them one after another on one
accumulator, leaving what they read in the slots of a record.  An operation
that fails sets a flag of the record and the next one runs.
-/
import Mathlib.Data.List.Basic
import LiveProbe.Location

namespace NativeAgent

open Bytes Outcome

def ABI_VERSION : ℕ := 2
def MAX_CAPTURE_SLOTS : ℕ := 8
def MAX_SLOT_BYTES : ℕ := 64

/-! ### Planning -/

inductive OpCode where
  | readRegister | readFrameBase | addConstant | dereferenceFixed | stackValue | readPiece
  deriving DecidableEq, Repr

def OpCode.toNat : OpCode → ℕ
  | .readRegister => 1 | .readFrameBase => 2 | .addConstant => 3
  | .dereferenceFixed => 4 | .stackValue => 5 | .readPiece => 6

structure NormalizedOp where
  code : OpCode
  register : ℕ
  width : ℕ
  destinationSlot : ℕ
  offset : ℤ
  deriving DecidableEq, Repr

structure CapturePathPlan where
  path : String
  operations : List NormalizedOp
  deriving DecidableEq, Repr

/-- `i32::try_from`. -/
def fitsI32 (value : ℤ) : Bool := -2 ^ 31 ≤ value && value < 2 ^ 31

def normalizeOperation (slot : ℕ) : LocationOperation → Except LocationError NormalizedOp
  | .register value =>
    if value < 256 then
      .ok { code := .readRegister, register := value, width := 8, destinationSlot := slot, offset := 0 }
    else .error (.unsupported "register number")
  | .frameOffset _ => .error (.unsupported "unresolved DW_OP_fbreg frame base")
  | .addConstant value =>
    if fitsI32 value then
      .ok { code := .addConstant, register := 0, width := 8, destinationSlot := slot, offset := value }
    else .error (.unsupported "constant offset")
  | .dereference bytes =>
    .ok { code := .dereferenceFixed, register := 0, width := bytes, destinationSlot := slot, offset := 0 }
  | .stackValue =>
    .ok { code := .stackValue, register := 0, width := 8, destinationSlot := slot, offset := 0 }
  | .piece _ =>
    .error (.unsupported "unsupported-register-piece: DW_OP_piece source semantics are unproven")
  | .unsupported opcode => .error (.unsupported ("DWARF opcode " ++ toString opcode))

def normalize (path : String) (operations : List LocationOperation) (slot : ℕ) :
    Except LocationError CapturePathPlan := do
  validateLocation operations
  if slot ≥ MAX_CAPTURE_SLOTS then .error (.unsupported "capture slot limit exceeded")
  if operations.length > MAX_CAPTURE_OPS then .error (.unsupported "operation limit exceeded")
  let normalized ← operations.mapM (normalizeOperation slot)
  return { path, operations := normalized }

def validatePlanBounds (plans : List CapturePathPlan) : Except LocationError Unit :=
  if plans.length > MAX_CAPTURE_SLOTS then .error (.unsupported "capture slot limit exceeded")
  else if (plans.map fun plan => plan.operations.length).sum > MAX_CAPTURE_OPS then
    .error (.unsupported "operation limit exceeded")
  else .ok ()

/-! ### The plan in the kernel -/

structure CaptureOp where
  code : ℕ := 0
  register : ℕ := 0
  width : ℕ := 0
  destinationSlot : ℕ := 0
  offset : ℤ := 0
  deriving DecidableEq, Repr

/-- What a loader is asked to attach, as far as the plan is made of it. -/
structure AttachRequest where
  cookie : ℕ
  pid : ℕ
  plan : List NormalizedOp
  generation : UInt32
  hitLimit : ℕ
  refillPerSecond : ℕ
  burst : ℕ
  sampleEvery : ℕ
  cgroupId : ℕ

structure CapturePlan where
  abiVersion : ℕ := ABI_VERSION
  operationCount : ℕ := 0
  slotCount : ℕ := 0
  generation : UInt32 := 0
  pid : ℕ := 0
  cgroupId : ℕ := 0
  hitLimit : ℕ := 1
  refillPerSecond : ℕ := 1
  burst : ℕ := 1
  sampleEvery : ℕ := 1
  /-- The array of operations; the places past the count hold the default. -/
  operations : ℕ → CaptureOp := fun _ => {}

def NormalizedOp.toCaptureOp (source : NormalizedOp) : CaptureOp where
  code := source.code.toNat
  register := source.register
  width := source.width
  destinationSlot := source.destinationSlot
  offset := source.offset

def capturePlan (request : AttachRequest) : Except String CapturePlan :=
  if request.plan.length > MAX_CAPTURE_OPS then .error "capture plan operation limit"
  else
    let plan : CapturePlan := {
      pid := request.pid
      generation := request.generation
      hitLimit := request.hitLimit
      refillPerSecond := request.refillPerSecond
      burst := request.burst
      sampleEvery := request.sampleEvery
      cgroupId := request.cgroupId
      operationCount := request.plan.length
      slotCount := ((request.plan.map fun op => op.destinationSlot).max?.map (· + 1)).getD 0
      operations := fun i => (request.plan[i]?.map NormalizedOp.toCaptureOp).getD {} }
    if 0 < plan.hitLimit ∧ 0 < plan.refillPerSecond ∧ 0 < plan.burst ∧ 0 < plan.sampleEvery then .ok plan
    else .error "invalid safety limits"

/-! ### The program -/

inductive Register where
  | rax | rdx | rcx | rbx | rsi | rdi | rbp | rsp | r8 | r9 | r10 | r11 | r12 | r13 | r14 | r15
  deriving DecidableEq, Repr

/-- The registers at the probed instruction. -/
abbrev PtRegs := Register → UInt64

def registerValue (ctx : PtRegs) : ℕ → ℕ
  | 0 => (ctx .rax).toNat | 1 => (ctx .rdx).toNat
  | 2 => (ctx .rcx).toNat | 3 => (ctx .rbx).toNat
  | 4 => (ctx .rsi).toNat | 5 => (ctx .rdi).toNat
  | 6 => (ctx .rbp).toNat | 7 => (ctx .rsp).toNat
  | 8 => (ctx .r8).toNat | 9 => (ctx .r9).toNat
  | 10 => (ctx .r10).toNat | 11 => (ctx .r11).toNat
  | 12 => (ctx .r12).toNat | 13 => (ctx .r13).toNat
  | 14 => (ctx .r14).toNat | 15 => (ctx .r15).toNat
  | _ => 0

def userLimit : ℕ := 0x00007fffffffffff

/-- The sum and whether it is a user address. -/
def addUserOffset (value : ℕ) (offset : ℤ) : ℕ × Bool :=
  if 0 ≤ offset then
    let addition := offset.toNat
    if value > userLimit ∨ addition > userLimit - value then (value, false)
    else (value + addition, decide (0 < value + addition ∧ value + addition ≤ userLimit))
  else
    let subtraction := (-offset).toNat
    if value < subtraction then (value, false)
    else (value - subtraction, decide (0 < value - subtraction ∧ value - subtraction ≤ userLimit))

def validUserRead (value width : ℕ) : Bool :=
  decide (0 < value ∧ value ≤ userLimit ∧ width ≤ userLimit - value + 1)

structure RawEvent where
  abiVersion : ℕ := ABI_VERSION
  slotCount : ℕ
  flags : ℕ := 0
  generation : UInt32
  cookie : ℕ
  widths : ℕ → ℕ := fun _ => 0
  /-- The bytes of each slot. -/
  values : ℕ → ℕ → UInt8 := fun _ _ => 0

/-- The accumulator and the record. -/
structure CaptureState where
  value : ℕ
  event : RawEvent

namespace CaptureState

def flag (s : CaptureState) (bit : ℕ) : CaptureState :=
  { s with event := { s.event with flags := s.event.flags ||| bit } }

/-- The first bytes of a slot and its width are replaced. -/
def store (s : CaptureState) (slot width : ℕ) (bytes : ℕ → UInt8) : CaptureState :=
  { s with event := { s.event with
      widths := fun i => if i = slot then width else s.event.widths i
      values := fun i j => if i = slot ∧ j < width then bytes j else s.event.values i j } }

end CaptureState

/-- One operation of a plan. -/
def captureStep (ctx : PtRegs) (mem : Memory) (s : CaptureState) (op : CaptureOp) : CaptureState :=
  if op.destinationSlot ≥ MAX_CAPTURE_SLOTS then s.flag 1
  else
    let destination := op.destinationSlot &&& (MAX_CAPTURE_SLOTS - 1)
    match op.code with
    | 1 => { s with value := registerValue ctx op.register }
    | 2 => s.flag 8
    | 3 =>
      let (value, ok) := addUserOffset s.value op.offset
      -- A sum out of bounds stays in the accumulator.
      if ok then { s with value } else { s with value }.flag 8
    | 4 =>
      if validUserRead s.value op.width = false then s.flag 8
      else if op.width ∉ [1, 2, 4, 8, MAX_SLOT_BYTES] then s.flag 2
      else
        match mem.read s.value op.width with
        | none => s.flag 4
        | some bytes =>
          let t := s.store destination op.width bytes
          -- Eight bytes of the slot are taken over, also after a shorter read.
          if op.width ≤ 8 then { t with value := word (t.event.values destination) 8 } else t
    | 5 => s.store destination 8 (leByte s.value)
    | 6 => s.flag 8
    | _ => s

/-- The record a hit submits. -/
def liveprobeSnapshot (ctx : PtRegs) (mem : Memory) (plan : CapturePlan) (cookie : ℕ) : RawEvent :=
  let event : RawEvent := { slotCount := plan.slotCount, generation := plan.generation, cookie }
  let final := (List.range MAX_CAPTURE_OPS).foldl
    (fun s index => if index ≥ plan.operationCount then s else captureStep ctx mem s (plan.operations index))
    ⟨0, event⟩
  final.event

/-! ### What the planner gives -/

/-- The operation of the program that a location operation becomes. -/
def LocationOperation.toCaptureOp (slot : ℕ) : LocationOperation → CaptureOp
  | .register r => { code := 1, register := r, width := 8, destinationSlot := slot }
  | .addConstant c => { code := 3, width := 8, destinationSlot := slot, offset := c }
  | .dereference n => { code := 4, width := n, destinationSlot := slot }
  | .stackValue => { code := 5, width := 8, destinationSlot := slot }
  | .frameOffset _ | .piece _ | .unsupported _ => { destinationSlot := slot }

@[simp] theorem LocationOperation.destinationSlot_toCaptureOp (slot : ℕ) (op : LocationOperation) :
    (op.toCaptureOp slot).destinationSlot = slot := by
  cases op <;> rfl

/-- The operations the planner has a counterpart for. -/
def LocationOperation.planned : LocationOperation → Bool
  | .register _ | .addConstant _ | .dereference _ | .stackValue => true
  | _ => false

theorem normalizeOperation_eq_ok {slot : ℕ} {op : LocationOperation} {normalized : NormalizedOp}
    (h : normalizeOperation slot op = .ok normalized) :
    normalized.toCaptureOp = op.toCaptureOp slot ∧ normalized.destinationSlot = slot ∧
      op.planned = true := by
  cases op with
  | register r =>
    simp only [normalizeOperation] at h
    split at h
    · cases h
      exact ⟨rfl, rfl, rfl⟩
    · cases h
  | addConstant c =>
    simp only [normalizeOperation] at h
    split at h
    · cases h
      exact ⟨rfl, rfl, rfl⟩
    · cases h
  | dereference n =>
    cases h
    exact ⟨rfl, rfl, rfl⟩
  | stackValue =>
    cases h
    exact ⟨rfl, rfl, rfl⟩
  | frameOffset _ | piece _ | unsupported _ => cases h

theorem normalize_mapM {slot : ℕ} {operations : List LocationOperation} {normalized : List NormalizedOp}
    (h : operations.mapM (normalizeOperation slot) = .ok normalized) :
    normalized.map NormalizedOp.toCaptureOp = operations.map (LocationOperation.toCaptureOp slot) ∧
      (∀ op ∈ normalized, op.destinationSlot = slot) ∧ ∀ op ∈ operations, op.planned = true := by
  induction operations generalizing normalized with
  | nil =>
    cases h
    simp
  | cons op operations ih =>
    rw [List.mapM_cons] at h
    obtain ⟨first, hfirst, h⟩ := bind_eq_ok.mp h
    obtain ⟨others, hothers, h⟩ := bind_eq_ok.mp h
    obtain rfl := Except.ok.inj h
    obtain ⟨hop, hslot, hplanned⟩ := normalizeOperation_eq_ok hfirst
    obtain ⟨hops, hslots, hall⟩ := ih hothers
    exact ⟨by simp [hop, hops], by simpa [hslot] using hslots, by simpa [hplanned] using hall⟩

theorem normalize_eq_ok {path : String} {operations : List LocationOperation} {slot : ℕ}
    {plan : CapturePathPlan} (h : normalize path operations slot = .ok plan) :
    slot < MAX_CAPTURE_SLOTS ∧ validateLocation operations = .ok () ∧
      plan.operations.map NormalizedOp.toCaptureOp = operations.map (LocationOperation.toCaptureOp slot) ∧
      (∀ op ∈ plan.operations, op.destinationSlot = slot) ∧ ∀ op ∈ operations, op.planned = true := by
  obtain ⟨⟨⟩, hvalid, h⟩ := bind_eq_ok.mp h
  simp only at h
  split at h
  · cases h
  next hslot =>
  split at h
  · cases h
  obtain ⟨normalized, hops, h⟩ := bind_eq_ok.mp h
  obtain rfl := Except.ok.inj h
  exact ⟨Nat.lt_of_not_le hslot, hvalid, normalize_mapM hops⟩

/-! ### Runs -/

section Runs

variable {ctx : PtRegs} {mem : Memory} {s t : CaptureState} {op : CaptureOp} {k : ℕ}

/-- The operations of a plan, one after another. -/
def captureRun (ctx : PtRegs) (mem : Memory) (s : CaptureState) (plan : List CaptureOp) : CaptureState :=
  plan.foldl (captureStep ctx mem) s

@[simp] theorem captureRun_nil : captureRun ctx mem s [] = s := rfl

@[simp] theorem captureRun_cons (plan : List CaptureOp) :
    captureRun ctx mem s (op :: plan) = captureRun ctx mem (captureStep ctx mem s op) plan := rfl

theorem captureRun_append (p q : List CaptureOp) :
    captureRun ctx mem s (p ++ q) = captureRun ctx mem (captureRun ctx mem s p) q :=
  List.foldl_append ..

/-- A bounded loop that stops at the length of a list is a fold over the list. -/
theorem foldl_range_bounded {α β : Type*} (f : β → α → β) (d : α) (l : List α) (n : ℕ) (s : β)
    (hl : l.length ≤ n) :
    (List.range n).foldl (fun s i => if i ≥ l.length then s else f s ((l[i]?).getD d)) s
      = l.foldl f s := by
  induction n generalizing l s with
  | zero =>
    obtain rfl := List.length_eq_zero_iff.mp (Nat.le_zero.mp hl)
    rfl
  | succ n ih =>
    rw [List.range_succ_eq_map, List.foldl_cons, List.foldl_map]
    rcases l with - | ⟨a, l⟩
    · simp [List.foldl_fixed]
    · simpa using ih l (f s a) (by simpa using hl)

/-- The record before the first operation. -/
def emptyRecord (plan : CapturePlan) (cookie : ℕ) : RawEvent :=
  { slotCount := plan.slotCount, generation := plan.generation, cookie }

theorem capturePlan_eq_ok {request : AttachRequest} {plan : CapturePlan}
    (h : capturePlan request = .ok plan) :
    plan.generation = request.generation ∧
      (∀ op ∈ request.plan, op.destinationSlot < plan.slotCount) ∧
      ((∀ op ∈ request.plan, op.destinationSlot < MAX_CAPTURE_SLOTS) → plan.slotCount ≤ MAX_CAPTURE_SLOTS) := by
  unfold capturePlan at h
  split at h
  · cases h
  simp only at h
  split at h
  · obtain rfl := Except.ok.inj h
    refine ⟨rfl, ?_⟩
    dsimp only
    rcases hmax : (request.plan.map fun op => op.destinationSlot).max? with - | m
    · have hnil : request.plan = [] := by simpa using hmax
      simp [hnil]
    · obtain ⟨hmem, hle⟩ := List.max?_eq_some_iff.mp hmax
      obtain ⟨top, htop, rfl⟩ := List.mem_map.mp hmem
      simp only [hmax, Option.map_some, Option.getD_some]
      constructor
      · intro op hop
        have := hle _ (List.mem_map_of_mem hop)
        omega
      · exact fun hall => hall top htop
  · cases h

/-- The loop of the program runs the operations of the request. -/
theorem liveprobeSnapshot_eq {request : AttachRequest} {plan : CapturePlan}
    (h : capturePlan request = .ok plan) (cookie : ℕ) :
    liveprobeSnapshot ctx mem plan cookie =
      (captureRun ctx mem ⟨0, emptyRecord plan cookie⟩
        (request.plan.map NormalizedOp.toCaptureOp)).event := by
  unfold capturePlan at h
  split at h
  · cases h
  next hlen =>
  simp only at h
  split at h
  · obtain rfl := Except.ok.inj h
    have key := foldl_range_bounded (captureStep ctx mem) ({} : CaptureOp)
      (request.plan.map NormalizedOp.toCaptureOp) MAX_CAPTURE_OPS
    simp only [List.length_map, List.getElem?_map] at key
    exact congrArg CaptureState.event (key _ (Nat.le_of_not_lt hlen))
  · cases h

/-! ### One step -/

theorem CaptureState.flag_flags_ne {bit : ℕ} (h : bit ≠ 0) : (s.flag bit).event.flags ≠ 0 :=
  fun e => h (Nat.or_eq_zero_iff.mp e).2

theorem slot_and_mask (h : k < MAX_CAPTURE_SLOTS) : k &&& (MAX_CAPTURE_SLOTS - 1) = k := by
  have h8 : k < 8 := h
  change k &&& (2 ^ 3 - 1) = k
  rw [Nat.and_two_pow_sub_one_eq_mod]
  omega

/-- Two states agree on the accumulator and on a slot. -/
structure SlotAgrees (k : ℕ) (s t : CaptureState) : Prop where
  value : s.value = t.value
  width : s.event.widths k = t.event.widths k
  bytes : s.event.values k = t.event.values k

theorem CaptureState.store_agrees (h : SlotAgrees k s t) (width : ℕ) (bytes : ℕ → UInt8) :
    SlotAgrees k (s.store k width bytes) (t.store k width bytes) where
  value := h.value
  width := by simp [CaptureState.store]
  bytes := by
    funext j
    simp [CaptureState.store, h.bytes]

/-- What an operation does to its own slot depends on that slot and the
accumulator alone. -/
theorem captureStep_agrees (h : SlotAgrees k s t) (hop : op.destinationSlot = k) :
    SlotAgrees k (captureStep ctx mem s op) (captureStep ctx mem t op) := by
  have hflag : ∀ bit, SlotAgrees k (s.flag bit) (t.flag bit) := fun _ => ⟨h.value, h.width, h.bytes⟩
  unfold captureStep
  split
  · exact hflag 1
  next hk =>
  have hd : op.destinationSlot &&& (MAX_CAPTURE_SLOTS - 1) = k := by
    rw [slot_and_mask (Nat.lt_of_not_le hk), hop]
  simp only [hd, h.value]
  split
  · exact ⟨rfl, h.width, h.bytes⟩
  · exact hflag 8
  · split <;> exact ⟨rfl, h.width, h.bytes⟩
  · split
    · exact hflag 8
    split
    · exact hflag 2
    split
    · exact hflag 4
    next bytes _ =>
    have hs := CaptureState.store_agrees h op.width bytes
    split
    · exact ⟨by rw [hs.bytes], hs.width, hs.bytes⟩
    · exact hs
  · exact CaptureState.store_agrees h 8 _
  · exact hflag 8
  · exact h

/-- A register read forgets what the accumulator held. -/
theorem captureStep_register (hw : s.event.widths k = t.event.widths k)
    (hv : s.event.values k = t.event.values k) (hop : op.destinationSlot = k)
    (hk : k < MAX_CAPTURE_SLOTS) (hcode : op.code = 1) :
    SlotAgrees k (captureStep ctx mem s op) (captureStep ctx mem t op) := by
  have hlt : ¬ op.destinationSlot ≥ MAX_CAPTURE_SLOTS := by omega
  simp only [captureStep, if_neg hlt, hcode]
  exact ⟨rfl, hw, hv⟩

/-- The other slots stay as they are. -/
theorem captureStep_other (hop : op.destinationSlot ≠ k) :
    (captureStep ctx mem s op).event.widths k = s.event.widths k ∧
      (captureStep ctx mem s op).event.values k = s.event.values k := by
  unfold captureStep
  split
  · exact ⟨rfl, rfl⟩
  next hlt =>
  have hd : op.destinationSlot &&& (MAX_CAPTURE_SLOTS - 1) ≠ k := by
    rwa [slot_and_mask (Nat.lt_of_not_le hlt)]
  have hstore : ∀ width bytes,
      (s.store (op.destinationSlot &&& (MAX_CAPTURE_SLOTS - 1)) width bytes).event.widths k
          = s.event.widths k ∧
        (s.store (op.destinationSlot &&& (MAX_CAPTURE_SLOTS - 1)) width bytes).event.values k
          = s.event.values k := by
    intro width bytes
    constructor
    · simp [CaptureState.store, hd.symm]
    · funext j
      simp [CaptureState.store, hd.symm]
  simp only
  split
  · exact ⟨rfl, rfl⟩
  · exact ⟨rfl, rfl⟩
  · split <;> exact ⟨rfl, rfl⟩
  · split
    · exact ⟨rfl, rfl⟩
    split
    · exact ⟨rfl, rfl⟩
    split
    · exact ⟨rfl, rfl⟩
    split <;> exact hstore _ _
  · exact hstore _ _
  · exact ⟨rfl, rfl⟩
  · exact ⟨rfl, rfl⟩

/-- The head of a record: all of it but flags, widths and bytes. -/
def RawEvent.head (event : RawEvent) : ℕ × ℕ × UInt32 × ℕ :=
  (event.abiVersion, event.slotCount, event.generation, event.cookie)

theorem RawEvent.head_eq {e f : RawEvent} (h : e.head = f.head) :
    e.abiVersion = f.abiVersion ∧ e.slotCount = f.slotCount ∧ e.generation = f.generation ∧
      e.cookie = f.cookie := by
  simpa [RawEvent.head] using h

theorem captureStep_head : (captureStep ctx mem s op).event.head = s.event.head := by
  unfold captureStep
  split
  · rfl
  simp only
  split
  · rfl
  · rfl
  · split <;> rfl
  · split
    · rfl
    split
    · rfl
    split
    · rfl
    split <;> rfl
  · rfl
  · rfl
  · rfl

theorem captureRun_head (plan : List CaptureOp) : (captureRun ctx mem s plan).event.head = s.event.head := by
  induction plan generalizing s with
  | nil => rfl
  | cons op plan ih => exact ih.trans captureStep_head

/-- No operation clears a flag. -/
theorem captureStep_flags (h : (captureStep ctx mem s op).event.flags = 0) : s.event.flags = 0 := by
  have hflag : ∀ (u : CaptureState) bit, (u.flag bit).event.flags = 0 → u.event.flags = 0 :=
    fun u bit hu => (Nat.or_eq_zero_iff.mp hu).1
  unfold captureStep at h
  split at h
  · exact hflag _ _ h
  simp only at h
  split at h
  · exact h
  · exact hflag _ _ h
  · split at h
    · exact h
    · exact hflag { s with value := (addUserOffset s.value op.offset).1 } _ h
  · split at h
    · exact hflag _ _ h
    split at h
    · exact hflag _ _ h
    split at h
    · exact hflag _ _ h
    split at h <;> exact h
  · exact h
  · exact hflag _ _ h
  · exact h

theorem captureRun_flags {plan : List CaptureOp}
    (h : (captureRun ctx mem s plan).event.flags = 0) : s.event.flags = 0 := by
  induction plan generalizing s with
  | nil => exact h
  | cons op plan ih => exact captureStep_flags (ih h)

theorem captureRun_agrees {plan : List CaptureOp} (h : SlotAgrees k s t)
    (hplan : ∀ op ∈ plan, op.destinationSlot = k) :
    SlotAgrees k (captureRun ctx mem s plan) (captureRun ctx mem t plan) := by
  induction plan generalizing s t with
  | nil => exact h
  | cons op plan ih =>
    have hop := hplan op (List.mem_cons_self ..)
    exact ih (captureStep_agrees h hop) fun o ho => hplan o (List.mem_cons_of_mem _ ho)

theorem captureRun_other {plan : List CaptureOp} (hplan : ∀ op ∈ plan, op.destinationSlot ≠ k) :
    (captureRun ctx mem s plan).event.widths k = s.event.widths k ∧
      (captureRun ctx mem s plan).event.values k = s.event.values k := by
  induction plan generalizing s with
  | nil => exact ⟨rfl, rfl⟩
  | cons op plan ih =>
    have first : (captureStep ctx mem s op).event.widths k = s.event.widths k ∧
        (captureStep ctx mem s op).event.values k = s.event.values k :=
      captureStep_other (hplan op (List.mem_cons_self ..))
    have rest := ih (s := captureStep ctx mem s op) fun o ho => hplan o (List.mem_cons_of_mem _ ho)
    exact ⟨rest.1.trans first.1, rest.2.trans first.2⟩

end Runs

end NativeAgent
