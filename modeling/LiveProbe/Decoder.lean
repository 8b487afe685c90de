/-
LiveProbe/Decoder.lean

Decoding a record, and planning the captures of a site.

A planned site has one slot for every watch path that can be captured; the
others are unavailable from the start.  The operations of the slots are run as
one plan, and `decodeEvent` reads each slot by the kind of its variable.
-/
import LiveProbe.Capture

namespace NativeAgent

open Bytes

/-! ### Values -/

/-- `as f64` on an integer: the nearest multiple of the last of 53 bits, ties to even. -/
def roundTo53 (n : ℕ) : ℕ :=
  let unit := 2 ^ (Nat.log2 n + 1 - 53)
  let quotient := n / unit
  let twice := 2 * (n % unit)
  if unit < twice ∨ (twice = unit ∧ quotient % 2 = 1) then (quotient + 1) * unit else quotient * unit

def asF64 (v : ℤ) : ℤ := v.sign * roundTo53 v.natAbs

/-- The bounds of the second byte of a sequence and the number of bytes after it. -/
def utf8Second (first : UInt8) : Option (UInt8 × UInt8 × ℕ) :=
  if 0xC2 ≤ first ∧ first ≤ 0xDF then some (0x80, 0xBF, 0)
  else if first = 0xE0 then some (0xA0, 0xBF, 1)
  else if first = 0xED then some (0x80, 0x9F, 1)
  else if 0xE1 ≤ first ∧ first ≤ 0xEF then some (0x80, 0xBF, 1)
  else if first = 0xF0 then some (0x90, 0xBF, 2)
  else if 0xF1 ≤ first ∧ first ≤ 0xF3 then some (0x80, 0xBF, 2)
  else if first = 0xF4 then some (0x80, 0x8F, 2)
  else none

/-- Continuation bytes still to come: the bits so far, the bounds of the next
byte and the number of bytes after it. -/
structure Utf8Pending where
  bits : ℕ
  low : UInt8
  high : UInt8
  rest : ℕ

def utf8Start (byte : UInt8) : List Char × Option Utf8Pending :=
  if byte < 0x80 then ([Char.ofNat byte.toNat], none)
  else
    match utf8Second byte with
    | some (low, high, rest) =>
      ([], some { bits := byte.toNat % (0x40 >>> (rest + 1)), low, high, rest })
    | none => (['\uFFFD'], none)

/-- `String::from_utf8_lossy`: a sequence that breaks off is one replacement character. -/
def fromUtf8Lossy : Option Utf8Pending → List UInt8 → List Char
  | none, [] => []
  | some _, [] => ['\uFFFD']
  | none, byte :: bytes =>
    let (chars, pending) := utf8Start byte
    chars ++ fromUtf8Lossy pending bytes
  | some p, byte :: bytes =>
    if p.low ≤ byte ∧ byte ≤ p.high then
      let bits := p.bits * 64 + byte.toNat % 64
      if p.rest = 0 then Char.ofNat bits :: fromUtf8Lossy none bytes
      else fromUtf8Lossy (some { bits, low := 0x80, high := 0xBF, rest := p.rest - 1 }) bytes
    else
      let (chars, pending) := utf8Start byte
      '\uFFFD' :: chars ++ fromUtf8Lossy pending bytes

/-- The nodes a slot can decode to, and the node of a path without a slot. -/
inductive SanitizedNode where
  | num (v : ℤ)
  | bool (v : Bool)
  | str (v : String)
  | unavailable (reasonCode siteId buildId : String)
  deriving DecidableEq, Repr

/-! ### Slots -/

def decodeUnsigned (event : RawEvent) (slot : ℕ) : Except String ℕ :=
  if event.abiVersion ≠ ABI_VERSION then .error "unsupported native event ABI"
  else if ¬ (slot < event.slotCount ∧ slot < MAX_CAPTURE_SLOTS) then .error "slot is unavailable"
  else if event.widths slot ∉ [1, 2, 4, 8] then .error "unsupported scalar width"
  else .ok (word (event.values slot) (event.widths slot))

/-- The text before the first NUL, of at most `max` bytes. -/
def decodeBoundedCString (bytes : List UInt8) (max : ℕ) : String :=
  String.ofList (fromUtf8Lossy none (bytes.take (min (bytes.idxOf 0) max)))

/-- `((unsigned << shift) as i64) >> shift`, where the shift is what the width
leaves of 64 bits. -/
def signExtend (width unsigned : ℕ) : ℤ :=
  let shift := 64 - width * 8
  let shifted : ℕ := unsigned * 2 ^ shift % 2 ^ 64
  let asI64 : ℤ := if shifted < 2 ^ 63 then (shifted : ℤ) else (shifted : ℤ) - 2 ^ 64
  asI64 >>> shift

def hexadecimal (n : ℕ) : String := String.ofList (Nat.toDigits 16 n)

def decodeNode (event : RawEvent) (slot : ℕ) (kind : ValueKind) : Except String SanitizedNode :=
  if event.abiVersion ≠ ABI_VERSION then .error "unsupported native event ABI"
  else if ¬ (slot < event.slotCount ∧ slot < MAX_CAPTURE_SLOTS) then .error "slot is unavailable"
  else
    let width := event.widths slot
    if ¬ (0 < width ∧ width ≤ MAX_SLOT_BYTES) then .error "unsupported scalar width"
    else if kind = .cString then
      .ok (.str (decodeBoundedCString ((List.range width).map (event.values slot)) width))
    else if width ∉ [1, 2, 4, 8] then .error "unsupported scalar width"
    else do
      let unsigned ← decodeUnsigned event slot
      match kind with
      | .signed => return .num (asF64 (signExtend width unsigned))
      | .unsigned => return .num (asF64 unsigned)
      | .boolean => return .bool (unsigned ≠ 0)
      | .pointer | .cString => return .str ("0x" ++ hexadecimal unsigned)

/-- The node that bytes of a width stand for. -/
def nodeOf (kind : ValueKind) (width : ℕ) (bytes : ℕ → UInt8) : SanitizedNode :=
  match kind with
  | .signed => .num (asF64 (signExtend width (word bytes width)))
  | .unsigned => .num (asF64 (word bytes width))
  | .boolean => .bool (word bytes width ≠ 0)
  | .pointer => .str ("0x" ++ hexadecimal (word bytes width))
  | .cString => .str (decodeBoundedCString ((List.range width).map bytes) width)

/-- A slot with a width its kind allows is decoded. -/
theorem decodeNode_eq {event : RawEvent} {slot : ℕ} {kind : ValueKind}
    (habi : event.abiVersion = ABI_VERSION) (hcount : slot < event.slotCount)
    (hslot : slot < MAX_CAPTURE_SLOTS)
    (hwidth : event.widths slot ∈ [1, 2, 4, 8] ∨ kind = .cString ∧ event.widths slot = 64) :
    decodeNode event slot kind = .ok (nodeOf kind (event.widths slot) (event.values slot)) := by
  rcases hwidth with hw | ⟨rfl, hw⟩
  · have hpos : 0 < event.widths slot ∧ event.widths slot ≤ MAX_SLOT_BYTES := by
      simp only [List.mem_cons, List.not_mem_nil, or_false] at hw
      unfold MAX_SLOT_BYTES
      omega
    have hunsigned : decodeUnsigned event slot
        = .ok (word (event.values slot) (event.widths slot)) := by
      unfold decodeUnsigned
      rw [if_neg (not_not.mpr habi), if_neg (not_not.mpr ⟨hcount, hslot⟩), if_neg (not_not.mpr hw)]
    unfold decodeNode
    rw [if_neg (not_not.mpr habi), if_neg (not_not.mpr ⟨hcount, hslot⟩)]
    simp only [if_neg (not_not.mpr hpos), if_neg (not_not.mpr hw), hunsigned]
    cases kind <;> rfl
  · have hpos : 0 < event.widths slot ∧ event.widths slot ≤ MAX_SLOT_BYTES := by
      rw [hw]
      decide
    unfold decodeNode
    rw [if_neg (not_not.mpr habi), if_neg (not_not.mpr ⟨hcount, hslot⟩)]
    simp only [if_neg (not_not.mpr hpos), if_true]
    rfl

/-! ### Sites -/

structure ProbeAssignment where
  id : String
  version : ℕ
  kind : String
  hitLimit : ℕ
  ttlSeconds : ℕ
  conditional : Bool
  deriving DecidableEq, Repr

structure PlannedSite where
  probe : ProbeAssignment
  siteId : String
  cookie : ℕ
  generation : UInt32
  operations : List NormalizedOp
  slotPaths : List (ℕ × String)
  slotKinds : List (ℕ × ValueKind)
  unavailable : List (String × SanitizedNode)

def reasonCode : LocationError → String
  | .optimizedOut => "variable-optimized-out"
  | .floatingPointRegister => "floating-point-register-unavailable"
  | .unsupported detail =>
    if detail.startsWith "variable-not-found" then "variable-not-found"
    else if (detail.splitOn "unsupported-type").length > 1 then "unsupported-type"
    else if (detail.splitOn "unsupported-register-piece").length > 1 then "unsupported-register-piece"
    else "unsupported-location-expression"

/-- The slots of a site, from the slot with this number on. -/
structure SlotPlans where
  operations : List NormalizedOp := []
  slotPaths : List (ℕ × String) := []
  slotKinds : List (ℕ × ValueKind) := []
  unavailable : List (String × LocationError) := []

/-- The plan of a watch path in a slot, and the kind of the variable. -/
def planPath (debug : String → Except LocationError Variable) (slot : ℕ) (path : String) :
    Except LocationError (CapturePathPlan × ValueKind) := do
  let resolved ← resolveVariable (← debug path)
  let plan ← normalize path resolved.operations slot
  return (plan, resolved.kind)

def planSlots (debug : String → Except LocationError Variable) : ℕ → List String → SlotPlans
  | _, [] => {}
  | slot, path :: paths =>
    let others := planSlots debug (slot + 1) paths
    match planPath debug slot path with
    | .ok (plan, kind) =>
      { others with
        operations := plan.operations ++ others.operations
        slotPaths := (slot, path) :: others.slotPaths
        slotKinds := (slot, kind) :: others.slotKinds }
    | .error error => { others with unavailable := (path, error) :: others.unavailable }

def validateCapturePathCount (pathCount : ℕ) : Except String Unit :=
  if pathCount ≤ MAX_CAPTURE_SLOTS then .ok ()
  else .error "capture slot limit exceeded: native probes support at most 8 unique paths"

def LocationError.message : LocationError → String
  | .optimizedOut => "variable-optimized-out"
  | .unsupported detail => "unsupported-location-expression: " ++ detail
  | .floatingPointRegister => "floating-point-register-unavailable"

/-- `plan_probe` at one address of the line; the debug file says of each path
what its variable is there. -/
def planSite (debug : String → Except LocationError Variable) (probe : ProbeAssignment)
    (siteId buildId : String) (cookie : ℕ) (paths : List String) : Except String PlannedSite := do
  validateCapturePathCount paths.length
  let plans := planSlots debug 0 paths
  (validatePlanBounds [{ path := "combined", operations := plans.operations }]).mapError LocationError.message
  return {
    probe, siteId, cookie
    generation := UInt32.ofNat probe.version
    operations := plans.operations
    slotPaths := plans.slotPaths
    slotKinds := plans.slotKinds
    unavailable := plans.unavailable.map fun (path, error) =>
      (path, .unavailable (reasonCode error) siteId buildId) }

def physicalGeneration (probeVersion sampleEvery : ℕ) : UInt32 :=
  let product := UInt32.ofNat probeVersion * 16777619
  (product <<< 5 ||| product >>> 27) ^^^ UInt32.ofNat sampleEvery

/-- The ceiling of captures the kernel keeps to. -/
def PlannedSite.captureCeiling (site : PlannedSite) : ℕ :=
  if site.probe.kind = "counter" then site.probe.hitLimit
  else if site.probe.conditional then 2 ^ 64 - 1
  else max (min (site.probe.hitLimit * 100) (2 ^ 64 - 1)) 100

def PlannedSite.attachRequest (site : PlannedSite) (pid : ℕ) (countOnly : Bool) (sampleEvery : ℕ) :
    AttachRequest where
  cookie := site.cookie
  pid := pid
  plan := if countOnly then [] else site.operations
  generation := physicalGeneration site.probe.version sampleEvery
  hitLimit := site.captureCeiling
  refillPerSecond := 10
  burst := 10
  sampleEvery := sampleEvery
  cgroupId := 0

/-- The site as it is kept once attached. -/
def PlannedSite.attached (site : PlannedSite) (request : AttachRequest) : PlannedSite :=
  { site with generation := request.generation }

/-- The slots of a record, by path. -/
def decodeSlots (site : PlannedSite) (raw : RawEvent) :
    List (ℕ × String) → Except String (List (String × SanitizedNode))
  | [] => .ok []
  | (slot, path) :: slots => do
    let node ← decodeNode raw slot ((site.slotKinds.lookup slot).getD .unsigned)
    let others ← decodeSlots site raw slots
    return (path, node) :: others

/-- `decode_event` up to the values of the paths; what is made of them comes
after. -/
def decodeEvent (site : PlannedSite) (raw : RawEvent) : Except String (List (String × SanitizedNode)) :=
  if ¬ (raw.abiVersion = ABI_VERSION ∧ raw.cookie = site.cookie) then
    .error "native record identity mismatch"
  else if raw.slotCount > MAX_CAPTURE_SLOTS then .error "native record slot count exceeds ABI bounds"
  else if raw.generation ≠ site.generation then .error "native record generation mismatch"
  else if raw.flags ≠ 0 then .error "native capture operation failed"
  else do
    let slots ← decodeSlots site raw site.slotPaths
    return site.unavailable ++ slots

end NativeAgent
