/-
LiveProbe/DwarfValue.lean

The value DWARF assigns to a variable, and which plans read it.

A location expression is run on a stack.  It ends in a register, in a value, or
in an address in memory; the variable is the bytes found there, read by its
kind.  The capture has an accumulator in the place of the stack and fetches with
the operations `resolveVariable` adds at the end.  Where a location is an
address and the expression does not end in a dereference, the two agree
(`sound_of_covered`), and where nothing is put on the stack first there is no value
and every hit is flagged.  A register or a value is captured whole, eight bytes
whatever the width of the type, and an address that ends in a dereference is
taken for the value.
-/
import LiveProbe.SlotIsolation
import Mathlib.Data.List.Basic

namespace NativeAgent

open Bytes Outcome

/-! ### DWARF -/

/-- Registers by their DWARF number. -/
def dwarfRegister : ℕ → Option Register
  | 0 => some .rax | 1 => some .rdx | 2 => some .rcx | 3 => some .rbx
  | 4 => some .rsi | 5 => some .rdi | 6 => some .rbp | 7 => some .rsp
  | 8 => some .r8 | 9 => some .r9 | 10 => some .r10 | 11 => some .r11
  | 12 => some .r12 | 13 => some .r13 | 14 => some .r14 | 15 => some .r15
  | _ => none

/-- Where a variable is. -/
inductive VariableLocation where
  | register (register : Register)
  | value (v : ℕ)
  | memory (address : ℕ)
  deriving DecidableEq, Repr

/-- Arithmetic of the stack is modulo the address size. -/
def wrap (v : ℤ) : ℕ := (v % 2 ^ 64).toNat

/-- The machine an expression is run on, with the frame base and the canonical
frame address of the scope. -/
structure Frame where
  ctx : PtRegs
  mem : Memory
  frameBase : Option ℕ
  cfa : Option ℕ

/-- The location an expression describes, from a stack on. -/
def Frame.evaluate (frame : Frame) : List ℕ → List Operation → Option VariableLocation
  | [], [.register r] => (dwarfRegister r).map .register
  | v :: _, [] => some (.memory v)
  | v :: _, [.stackValue] => some (.value v)
  | stack, .registerOffset r offset :: rest =>
    (dwarfRegister r).bind fun reg => frame.evaluate (wrap ((frame.ctx reg).toNat + offset) :: stack) rest
  | stack, .frameOffset offset :: rest =>
    frame.frameBase.bind fun base => frame.evaluate (wrap (base + offset) :: stack) rest
  | stack, .callFrameCFA :: rest => frame.cfa.bind fun address => frame.evaluate (address :: stack) rest
  | v :: stack, .plusConstant c :: rest => frame.evaluate (wrap (v + c) :: stack) rest
  | v :: stack, .deref size :: rest =>
    if size ∈ [1, 2, 4, 8] then
      (frame.mem.read v size).bind fun bytes => frame.evaluate (word bytes size :: stack) rest
    else none
  | _, _ => none

/-- The canonical frame address. -/
def CfaRule.address (ctx : PtRegs) : CfaRule → Option ℕ
  | .registerAndOffset r offset => (dwarfRegister r).map fun reg => wrap ((ctx reg).toNat + offset)
  | .expression => none

/-- The frame base: the address its expression computes, or what its register holds. -/
def FrameBase.value (ctx : PtRegs) (mem : Memory) (base : FrameBase) : Option ℕ :=
  let cfa := base.cfa.toOption.bind (CfaRule.address ctx)
  match Frame.evaluate ⟨ctx, mem, none, cfa⟩ [] base.expression with
  | some (.register reg) => some (ctx reg).toNat
  | some (.memory address) => some address
  | _ => none

/-- `width` bytes of a 64-bit value at an offset. -/
def sliceOf (v : ℕ) (offset : ℤ) (width : ℕ) : Option ℕ :=
  if 0 ≤ offset ∧ offset + width ≤ 8 then some (v / 256 ^ offset.toNat % 256 ^ width) else none

/-- The bytes of a variable, or of a member of it, as a number. -/
def VariableLocation.number (ctx : PtRegs) (mem : Memory) (offset : ℤ) (width : ℕ) :
    VariableLocation → Option ℕ
  | .register reg => sliceOf (ctx reg).toNat offset width
  | .value v => sliceOf v offset width
  | .memory address => (mem.read (wrap (address + offset)) width).map fun bytes => word bytes width

/-- The node of a scalar, or of the text a pointer points to. -/
def dwarfNode (mem : Memory) (kind : ValueKind) (width n : ℕ) : Option SanitizedNode :=
  match kind with
  | .signed => some (.num (asF64 (signed width n)))
  | .unsigned => some (.num (asF64 n))
  | .boolean => some (.bool (n ≠ 0))
  | .pointer => some (.str ("0x" ++ hexadecimal n))
  | .cString => (mem.read n MAX_SLOT_BYTES).map fun bytes =>
      .str (decodeBoundedCString ((List.range MAX_SLOT_BYTES).map bytes) MAX_SLOT_BYTES)

/-- The location of a variable at the probed address. -/
def Variable.dwarfLocation (v : Variable) (ctx : PtRegs) (mem : Memory) : Option VariableLocation :=
  v.location.toOption.bind fun expression =>
    Frame.evaluate ⟨ctx, mem, v.frameBase.bind (FrameBase.value ctx mem), none⟩ [] expression

/-- The value DWARF assigns to a variable. -/
def Variable.dwarfValue (v : Variable) (ctx : PtRegs) (mem : Memory) : Option SanitizedNode :=
  (v.dwarfLocation ctx mem).bind fun location =>
    (location.number ctx mem v.memberOffset v.scalarWidth).bind (dwarfNode mem v.kind v.scalarWidth)

/-- Whatever is planned for the variable in a slot, the record of a hit has a
flag or its slot decodes to the value of the variable. -/
def Variable.Sound (v : Variable) (ctx : PtRegs) (mem : Memory) : Prop :=
  ∀ (path : String) (slot : ℕ) (resolved : VariablePlan) (planned : CapturePathPlan)
    (request : AttachRequest) (plan : CapturePlan),
    resolveVariable v = .ok resolved → normalize path resolved.operations slot = .ok planned →
    request.plan = planned.operations → capturePlan request = .ok plan →
      (liveprobeSnapshot ctx mem plan request.cookie).flags ≠ 0 ∨
        ∃ node, v.dwarfValue ctx mem = some node ∧
          decodeNode (liveprobeSnapshot ctx mem plan request.cookie) slot resolved.kind = .ok node

/-! ### The accumulator -/

variable {ctx : PtRegs} {mem : Memory} {s : CaptureState} {slot n : ℕ} {v : Variable}
variable {base located : List LocationOperation} {expression : List Operation}

theorem registerValue_eq {r : ℕ} {reg : Register} (h : dwarfRegister r = some reg) :
    registerValue ctx r = (ctx reg).toNat := by
  rcases Nat.lt_or_ge r 16 with hr | hr
  · interval_cases r <;> cases h <;> rfl
  · obtain ⟨k, rfl⟩ := Nat.exists_eq_add_of_le hr
    rw [Nat.add_comm] at h
    cases h

theorem dwarfRegister_of_le {r : ℕ} (h : r ≤ 15) : ∃ reg, dwarfRegister r = some reg := by
  interval_cases r <;> exact ⟨_, rfl⟩

theorem wrap_of_lt {a : ℤ} (h0 : 0 ≤ a) (h : a < 2 ^ 64) : (wrap a : ℤ) = a := by
  rw [wrap, Int.emod_eq_of_lt h0 h]
  omega

/-- A sum the program accepts is the sum of the stack. -/
theorem addUserOffset_eq {value : ℕ} {offset : ℤ} (h : (addUserOffset value offset).2 = true) :
    (addUserOffset value offset).1 = wrap (value + offset) := by
  have hwrap : ∀ {a : ℕ}, a ≤ userLimit → (a : ℤ) = value + offset → a = wrap (value + offset) := by
    intro a ha e
    have : (wrap (value + offset) : ℤ) = value + offset := by
      refine wrap_of_lt (by omega) ?_
      unfold userLimit at ha
      omega
    omega
  unfold addUserOffset at h ⊢
  by_cases ho : 0 ≤ offset
  · simp only [if_pos ho] at h ⊢
    split at h
    · cases h
    · next hlimit =>
      rw [if_neg hlimit]
      exact hwrap (of_decide_eq_true h).2 (by simp; omega)
  · simp only [if_neg ho] at h ⊢
    split at h
    · cases h
    · next hlimit =>
      rw [if_neg hlimit]
      exact hwrap (of_decide_eq_true h).2 (by omega)

/-- The address the operations of a location compute, from a value on. -/
def addressOf (ctx : PtRegs) (mem : Memory) : ℕ → List LocationOperation → Option ℕ
  | v, [] => some v
  | _, .register r :: rest => (dwarfRegister r).bind fun reg => addressOf ctx mem (ctx reg).toNat rest
  | v, .addConstant c :: rest => addressOf ctx mem (wrap (v + c)) rest
  | v, .dereference m :: rest => (mem.read v m).bind fun bytes => addressOf ctx mem (word bytes m) rest
  | _, _ => none

/-- The bytes of the slot from a position on are still zero. -/
def CaptureState.CleanFrom (s : CaptureState) (slot n : ℕ) : Prop :=
  ∀ i, n ≤ i → i < 8 → s.event.values slot i = 0

section Steps

variable (hslot : slot < MAX_CAPTURE_SLOTS)
include hslot

theorem captureStep_readRegister {r : ℕ} {reg : Register} (hr : dwarfRegister r = some reg) :
    captureStep ctx mem s (LocationOperation.toCaptureOp slot (.register r))
      = { s with value := (ctx reg).toNat } := by
  have hlt : ¬ slot ≥ MAX_CAPTURE_SLOTS := by omega
  simp only [captureStep, LocationOperation.toCaptureOp, if_neg hlt, registerValue_eq hr]

theorem captureStep_addConstant {c : ℤ}
    (h : (captureStep ctx mem s (LocationOperation.toCaptureOp slot (.addConstant c))).event.flags = 0) :
    captureStep ctx mem s (LocationOperation.toCaptureOp slot (.addConstant c))
      = { s with value := wrap (s.value + c) } := by
  have hlt : ¬ (LocationOperation.toCaptureOp slot (.addConstant c)).destinationSlot ≥ MAX_CAPTURE_SLOTS :=
    Nat.not_le.mpr hslot
  have hstep : captureStep ctx mem s (LocationOperation.toCaptureOp slot (.addConstant c)) =
      if (addUserOffset s.value c).2 then { s with value := (addUserOffset s.value c).1 }
      else { s with value := (addUserOffset s.value c).1 }.flag 8 := by
    unfold captureStep
    rw [if_neg hlt]
    rfl
  rw [hstep] at h ⊢
  by_cases hok : (addUserOffset s.value c).2 = true
  · rw [if_pos hok, addUserOffset_eq hok]
  · rw [if_neg hok] at h
    exact absurd h (CaptureState.flag_flags_ne (by decide))

end Steps

@[simp] theorem CaptureState.store_values (s : CaptureState) (slot m : ℕ) (bytes : ℕ → UInt8) (i : ℕ) :
    (s.store slot m bytes).event.values slot i = if i < m then bytes i else s.event.values slot i := by
  simp [CaptureState.store]

@[simp] theorem CaptureState.store_widths (s : CaptureState) (slot m : ℕ) (bytes : ℕ → UInt8) :
    (s.store slot m bytes).event.widths slot = m := by
  simp [CaptureState.store]

/-- Over clean bytes a read of `m` bytes is taken over as it is. -/
theorem word_store {bytes : ℕ → UInt8} {m : ℕ} (hm : m ≤ 8) (hclean : s.CleanFrom slot m) :
    word ((s.store slot m bytes).event.values slot) 8 = word bytes m := by
  rw [word_of_zeros hm, word_congr]
  · intro i hi
    rw [CaptureState.store_values, if_pos hi]
  · intro i hi h8
    rw [CaptureState.store_values, if_neg (by omega)]
    exact hclean i hi h8

/-! ### Addresses -/

/-- The operations an address is computed with. -/
def LocationOperation.addressing : LocationOperation → Bool
  | .register r => decide (r ≤ 15)
  | .addConstant _ => true
  | .dereference m => decide (m ∈ [1, 2, 4, 8])
  | _ => false

/-- Dereferences that never get narrower, from a width on. -/
def WidensFrom : ℕ → List LocationOperation → Prop
  | _, [] => True
  | k, .dereference m :: rest => k ≤ m ∧ WidensFrom m rest
  | k, _ :: rest => WidensFrom k rest

theorem CaptureState.CleanFrom.mono {k m : ℕ} (h : s.CleanFrom slot k) (hkm : k ≤ m) :
    s.CleanFrom slot m := fun i hi => h i (hkm.trans hi)

/-- An unflagged run of the operations of an address leaves it in the accumulator. -/
theorem captureRun_address (hslot : slot < MAX_CAPTURE_SLOTS) {k : ℕ}
    {operations : List LocationOperation} (hops : ∀ op ∈ operations, op.addressing = true)
    (hwidens : WidensFrom k operations) (hclean : s.CleanFrom slot k)
    (h : (captureRun ctx mem s (operations.map (LocationOperation.toCaptureOp slot))).event.flags = 0) :
    addressOf ctx mem s.value operations
      = some (captureRun ctx mem s (operations.map (LocationOperation.toCaptureOp slot))).value := by
  induction operations generalizing s k with
  | nil => rfl
  | cons op rest ih =>
    rw [List.map_cons, captureRun_cons] at h ⊢
    have hop := hops op (List.mem_cons_self ..)
    have hrest : ∀ o ∈ rest, o.addressing = true := fun o ho => hops o (List.mem_cons_of_mem _ ho)
    have hstep := captureRun_flags h
    cases op with
    | register r =>
      obtain ⟨reg, hreg⟩ := dwarfRegister_of_le (of_decide_eq_true hop)
      rw [captureStep_readRegister hslot hreg] at h ⊢
      have hclean' : CaptureState.CleanFrom { s with value := (ctx reg).toNat } slot k := hclean
      rw [addressOf, hreg]
      exact ih hrest hwidens hclean' h
    | addConstant c =>
      have hclean' : CaptureState.CleanFrom { s with value := wrap (s.value + c) } slot k := hclean
      rw [captureStep_addConstant hslot hstep] at h ⊢
      exact ih hrest hwidens hclean' h
    | dereference m =>
      obtain ⟨hkm, hwidens⟩ := hwidens
      have hm : m ≤ 8 := by
        have := of_decide_eq_true hop
        simp only [List.mem_cons, List.not_mem_nil, or_false] at this
        omega
      obtain ⟨bytes, hread, heq⟩ := captureStep_dereference hslot hstep
      rw [heq, if_pos hm] at h ⊢
      rw [word_store hm (hclean.mono hkm)] at h ⊢
      rw [addressOf, hread]
      refine ih hrest hwidens ?_ h
      intro i hi h8
      change (s.store slot m bytes).event.values slot i = 0
      rw [CaptureState.store_values, if_neg (by omega)]
      exact hclean i (hkm.trans hi) h8
    | frameOffset _ | stackValue | piece _ | unsupported _ => cases hop

/-- The location operations of an expression without a register alone and
without a value, over a frame base. -/
inductive Locates (base : List LocationOperation) : List Operation → List LocationOperation → Prop
  | nil : Locates base [] []
  | registerOffset (r : ℕ) (offset : ℤ) {expression located} : Locates base expression located →
      Locates base (.registerOffset r offset :: expression) (.register r :: .addConstant offset :: located)
  | frameOffset (offset : ℤ) {expression located} : Locates base expression located →
      Locates base (.frameOffset offset :: expression)
        (base ++ (if offset ≠ 0 then [.addConstant offset] else []) ++ located)
  | plusConstant (c : ℕ) {expression located} : Locates base expression located →
      Locates base (.plusConstant c :: expression) (.addConstant c :: located)
  | deref (m : ℕ) {expression located} : Locates base expression located →
      Locates base (.deref m :: expression) (.dereference m :: located)

/-- The operations of an expression an address is computed with. -/
def Operation.addressing : Operation → Bool
  | .registerOffset _ _ | .frameOffset _ | .plusConstant _ => true
  | .deref m => decide (m ∈ [1, 2, 4, 8])
  | _ => false

/-- The operations of the capture are those of the expression, one after
another, and those of what follows it. -/
theorem locates_of_splice {saw : Bool} {tail : List Operation} {operations : List LocationOperation}
    (hops : ∀ op ∈ expression, op.addressing = true)
    (hdecode : decodeExpression (expression ++ tail) = .ok operations)
    (hsplice : spliceFrameBase base saw operations = .ok located) :
    ∃ front saw' rest end', located = front ++ end' ∧ Locates base expression front ∧
      decodeExpression tail = .ok rest ∧ spliceFrameBase base saw' rest = .ok end' := by
  induction expression generalizing saw operations located with
  | nil => exact ⟨[], saw, operations, located, rfl, .nil, hdecode, hsplice⟩
  | cons op expression ih =>
    have hop := hops op (List.mem_cons_self ..)
    have hrest : ∀ o ∈ expression, o.addressing = true := fun o ho => hops o (List.mem_cons_of_mem _ ho)
    obtain ⟨first, hfirst, hdecode⟩ := bind_eq_ok.mp hdecode
    obtain ⟨others, hothers, hdecode⟩ := bind_eq_ok.mp hdecode
    obtain rfl := Except.ok.inj hdecode
    cases op with
    | registerOffset r offset =>
      obtain rfl := Except.ok.inj hfirst
      obtain ⟨located₁, h₁, hsplice⟩ : ∃ l, spliceFrameBase base saw others = .ok l ∧
          located = .register r :: .addConstant offset :: l := by
        cases saw <;>
        · obtain ⟨l₁, h₁, hsplice⟩ := bind_eq_ok.mp hsplice
          obtain ⟨l₂, h₂, h₁⟩ := bind_eq_ok.mp h₁
          obtain rfl := Except.ok.inj h₁
          exact ⟨l₂, h₂, (Except.ok.inj hsplice).symm⟩
      obtain ⟨front, saw', rest, end', rfl, hfront, hr, he⟩ := ih hrest hothers h₁
      exact ⟨_, saw', rest, end', by simp [hsplice], .registerOffset r offset hfront, hr, he⟩
    | frameOffset offset =>
      obtain rfl := Except.ok.inj hfirst
      cases saw with
      | true => cases hsplice
      | false =>
        obtain ⟨l, hl, hsplice⟩ := bind_eq_ok.mp hsplice
        obtain rfl := Except.ok.inj hsplice
        obtain ⟨front, saw', rest, end', rfl, hfront, hr, he⟩ := ih hrest hothers hl
        exact ⟨_, saw', rest, end', by simp, .frameOffset offset hfront, hr, he⟩
    | plusConstant c =>
      obtain ⟨c', hc, hfirst⟩ := bind_eq_ok.mp hfirst
      obtain rfl := Except.ok.inj hfirst
      obtain rfl : (c : ℤ) = c' := by
        unfold signedConstant at hc
        split at hc
        · exact Except.ok.inj hc
        · cases hc
      obtain ⟨l, hl, hsplice⟩ : ∃ l, spliceFrameBase base saw others = .ok l ∧
          located = .addConstant c :: l := by
        cases saw <;>
        · obtain ⟨l, hl, hsplice⟩ := bind_eq_ok.mp hsplice
          exact ⟨l, hl, (Except.ok.inj hsplice).symm⟩
      obtain ⟨front, saw', rest, end', rfl, hfront, hr, he⟩ := ih hrest hothers hl
      exact ⟨_, saw', rest, end', by simp [hsplice], .plusConstant c hfront, hr, he⟩
    | deref m =>
      obtain rfl := Except.ok.inj hfirst
      obtain ⟨l, hl, hsplice⟩ : ∃ l, spliceFrameBase base saw others = .ok l ∧
          located = .dereference m :: l := by
        cases saw <;>
        · obtain ⟨l, hl, hsplice⟩ := bind_eq_ok.mp hsplice
          exact ⟨l, hl, (Except.ok.inj hsplice).symm⟩
      obtain ⟨front, saw', rest, end', rfl, hfront, hr, he⟩ := ih hrest hothers hl
      exact ⟨_, saw', rest, end', by simp [hsplice], .deref m hfront, hr, he⟩
    | register _ | stackValue | piece _ | callFrameCFA | other _ | unread _ => cases hop

/-! ### The stack and the accumulator -/

theorem wrap_lt (a : ℤ) : wrap a < 2 ^ 64 := by
  have h := Int.emod_lt_of_pos a (show (0 : ℤ) < 2 ^ 64 by decide)
  have h0 := Int.emod_nonneg a (show (2 ^ 64 : ℤ) ≠ 0 by decide)
  unfold wrap
  omega

theorem wrap_self {a : ℕ} (h : a < 2 ^ 64) : wrap (a + 0) = a := by
  have := wrap_of_lt (show (0 : ℤ) ≤ a + 0 by omega) (show (a + 0 : ℤ) < 2 ^ 64 by omega)
  omega

theorem addressOf_append (a : ℕ) (l m : List LocationOperation) :
    addressOf ctx mem a (l ++ m) = (addressOf ctx mem a l).bind fun b => addressOf ctx mem b m := by
  induction l generalizing a with
  | nil => rfl
  | cons op l ih =>
    cases op with
    | register r =>
      simp only [List.cons_append, addressOf, ih, Option.bind_assoc]
    | addConstant c => simp only [List.cons_append, addressOf, ih]
    | dereference n => simp only [List.cons_append, addressOf, ih, Option.bind_assoc]
    | frameOffset _ | stackValue | piece _ | unsupported _ => rfl

/-- What is known of a frame base in use: it has a value, and its operations
leave that value in the accumulator. -/
structure BaseValue (ctx : PtRegs) (mem : Memory) (base : List LocationOperation) (value : ℕ) : Prop where
  address : ∀ a, addressOf ctx mem a base = some value
  lt : value < 2 ^ 64

/-- The frame base with an offset. -/
theorem BaseValue.offset {value : ℕ} (h : BaseValue ctx mem base value) (a : ℕ) (offset : ℤ) :
    addressOf ctx mem a (base ++ if offset ≠ 0 then [.addConstant offset] else [])
      = some (wrap (value + offset)) := by
  rw [addressOf_append, h.address a, Option.bind_some]
  split
  · rfl
  · next hoff =>
    obtain rfl : offset = 0 := not_not.mp hoff
    rw [wrap_self h.lt]
    rfl

/-- On the operations of an address the top of the stack is the accumulator. -/
theorem evaluate_locates {frame : Frame} (hl : Locates base expression located)
    (hops : ∀ op ∈ expression, op.addressing = true)
    (hbase : ∀ offset, .frameOffset offset ∈ expression →
      ∃ value, frame.frameBase = some value ∧ BaseValue frame.ctx frame.mem base value)
    {tail : List Operation} {finish : ℕ → VariableLocation}
    (htail : ∀ a stack, frame.evaluate (a :: stack) tail = some (finish a)) (a : ℕ) (stack : List ℕ) :
    frame.evaluate (a :: stack) (expression ++ tail)
      = (addressOf frame.ctx frame.mem a located).map finish := by
  induction hl generalizing a stack with
  | nil => exact htail a stack
  | registerOffset r offset _ ih =>
    rw [List.cons_append, Frame.evaluate, addressOf]
    rcases dwarfRegister r with - | reg
    · rfl
    · exact ih (fun o ho => hops o (List.mem_cons_of_mem _ ho))
        (fun o ho => hbase o (List.mem_cons_of_mem _ ho)) _ _
  | frameOffset offset _ ih =>
    obtain ⟨value, hvalue, hbv⟩ := hbase offset (List.mem_cons_self ..)
    rw [List.cons_append, Frame.evaluate, hvalue, addressOf_append, hbv.offset]
    exact ih (fun o ho => hops o (List.mem_cons_of_mem _ ho))
      (fun o ho => hbase o (List.mem_cons_of_mem _ ho)) _ _
  | plusConstant c _ ih =>
    rw [List.cons_append, Frame.evaluate, addressOf]
    exact ih (fun o ho => hops o (List.mem_cons_of_mem _ ho))
      (fun o ho => hbase o (List.mem_cons_of_mem _ ho)) _ _
  | deref m _ ih =>
    have hm := of_decide_eq_true (hops (.deref m) (List.mem_cons_self ..))
    rw [List.cons_append, Frame.evaluate, if_pos hm, addressOf]
    rcases frame.mem.read a m with - | bytes
    · rfl
    · exact ih (fun o ho => hops o (List.mem_cons_of_mem _ ho))
        (fun o ho => hbase o (List.mem_cons_of_mem _ ho)) _ _

/-- An expression that starts at a register needs no stack to start from. -/
theorem evaluate_start {frame : Frame} (hl : Locates base expression located)
    (hops : ∀ op ∈ expression, op.addressing = true)
    (hbase : ∀ offset, .frameOffset offset ∈ expression →
      ∃ value, frame.frameBase = some value ∧ BaseValue frame.ctx frame.mem base value)
    {tail : List Operation} {finish : ℕ → VariableLocation}
    (htail : ∀ a stack, frame.evaluate (a :: stack) tail = some (finish a))
    (hstart : ∃ op rest, expression = op :: rest ∧ op.readsRegister = true) (a : ℕ) :
    frame.evaluate [] (expression ++ tail) = (addressOf frame.ctx frame.mem a located).map finish := by
  obtain ⟨op, rest, rfl, hop⟩ := hstart
  rw [← evaluate_locates hl hops hbase htail a []]
  cases op with
  | registerOffset r offset =>
    rw [List.cons_append, Frame.evaluate, Frame.evaluate]
    rcases hreg : dwarfRegister r with - | reg
    · rfl
    · cases hl with
      | registerOffset _ _ hl =>
        have hops' : ∀ o ∈ rest, o.addressing = true := fun o ho => hops o (List.mem_cons_of_mem _ ho)
        have hbase' := fun o ho => hbase o (List.mem_cons_of_mem _ ho)
        rw [Option.bind_some, Option.bind_some, evaluate_locates hl hops' hbase' htail,
          evaluate_locates hl hops' hbase' htail]
  | frameOffset offset =>
    cases hl with
    | frameOffset _ hl =>
      obtain ⟨value, hvalue, hbv⟩ := hbase offset (List.mem_cons_self ..)
      have hops' : ∀ o ∈ rest, o.addressing = true := fun o ho => hops o (List.mem_cons_of_mem _ ho)
      have hbase' := fun o ho => hbase o (List.mem_cons_of_mem _ ho)
      rw [List.cons_append, Frame.evaluate, Frame.evaluate, hvalue, Option.bind_some, Option.bind_some,
        evaluate_locates hl hops' hbase' htail, evaluate_locates hl hops' hbase' htail]
  | register _ => exact absurd (hops _ (List.mem_cons_self ..)) (by simp [Operation.addressing])
  | plusConstant _ | deref _ | stackValue | piece _ | callFrameCFA | other _ | unread _ => cases hop

/-! ### Frame bases -/

/-- A register alone is a location of its own and not the start of a sum. -/
def FrameBase.WellFormed (frameBase : FrameBase) : Prop :=
  ∀ r rest, frameBase.expression = .register r :: rest → rest = []

/-- Constants after the start of a frame base are sums. -/
theorem evaluate_constants {frame : Frame} {cfa : Except LocationError CfaRule}
    {others : List LocationOperation} (hdecode : FrameBase.decodeOperations cfa expression = .ok others)
    (hconst : ∀ op ∈ others, ∃ c, op = .addConstant c) (a : ℕ) (stack : List ℕ) :
    frame.evaluate (a :: stack) expression
      = (addressOf frame.ctx frame.mem a others).map .memory := by
  induction expression generalizing others a stack with
  | nil =>
    cases hdecode
    rfl
  | cons op rest ih =>
    obtain ⟨first, hfirst, hdecode⟩ := bind_eq_ok.mp hdecode
    obtain ⟨others', hothers, hdecode⟩ := bind_eq_ok.mp hdecode
    obtain rfl := Except.ok.inj hdecode
    have hregister : ∀ {r tail}, first ≠ .register r :: tail := by
      rintro r tail rfl
      obtain ⟨c, hc⟩ := hconst (.register r) (by simp)
      cases hc
    cases op with
    | plusConstant c =>
      obtain ⟨c', hc, hfirst⟩ := bind_eq_ok.mp hfirst
      obtain rfl := Except.ok.inj hfirst
      obtain rfl : (c : ℤ) = c' := by
        unfold signedConstant at hc
        split at hc
        · exact Except.ok.inj hc
        · cases hc
      rw [Frame.evaluate, ih hothers fun o ho => hconst o (by simp [ho])]
      rfl
    | callFrameCFA =>
      obtain ⟨rule, hrule, hfirst⟩ := bind_eq_ok.mp hfirst
      cases rule with
      | registerAndOffset r offset =>
        simp only [cfaRuleOperations] at hfirst
        split at hfirst
        · exact absurd (Except.ok.inj hfirst).symm hregister
        · cases hfirst
      | expression => cases hfirst
    | register r => exact absurd (Except.ok.inj hfirst).symm hregister
    | registerOffset r offset => exact absurd (Except.ok.inj hfirst).symm hregister
    | frameOffset _ | deref _ | stackValue | piece _ | other _ | unread _ => cases hfirst

theorem decodeFrameBaseExpression_eq_ok {frameBase : FrameBase}
    (h : decodeFrameBaseExpression frameBase = .ok base) :
    FrameBase.decodeOperations frameBase.cfa frameBase.expression = .ok base ∧
      registerBased base = true ∧ validateLocation base = .ok () := by
  obtain ⟨output, hdecode, h⟩ := bind_eq_ok.mp h
  simp only at h
  split at h
  · cases h
  next hb =>
  obtain ⟨⟨⟩, hvalid, h⟩ := bind_eq_ok.mp h
  obtain rfl := Except.ok.inj h
  exact ⟨hdecode, by simpa using hb, hvalid⟩

/-- A register with an offset and constants after it. -/
theorem baseValue_of_offset (frame : Frame) {cfa : Except LocationError CfaRule} {r : ℕ} (offset : ℤ)
    {reg : Register} {others : List LocationOperation} (hreg : dwarfRegister r = some reg)
    (hdecode : FrameBase.decodeOperations cfa expression = .ok others)
    (hconst : ∀ op ∈ others, ∃ c, op = .addConstant c) :
    ∃ value, frame.evaluate [wrap ((frame.ctx reg).toNat + offset)] expression = some (.memory value) ∧
      BaseValue frame.ctx frame.mem
        (.register r :: ((if offset ≠ 0 then [.addConstant offset] else []) ++ others)) value := by
  have hsum : ∀ a b, ∃ value, addressOf frame.ctx frame.mem a others = some value ∧
      (a < 2 ^ 64 → value < 2 ^ 64) ∧ (a = b → addressOf frame.ctx frame.mem b others = some value) := by
    intro a b
    clear hdecode
    induction others generalizing a b with
    | nil => exact ⟨a, rfl, id, fun e => by rw [← e]; rfl⟩
    | cons op others ih =>
      obtain ⟨c, rfl⟩ := hconst op (List.mem_cons_self ..)
      obtain ⟨value, hvalue, hlt, -⟩ := ih (fun o ho => hconst o (List.mem_cons_of_mem _ ho)) (wrap (a + c)) 0
      exact ⟨value, hvalue, fun _ => hlt (wrap_lt _), fun e => by rw [← e]; exact hvalue⟩
  obtain ⟨value, hvalue, hlt, -⟩ := hsum (wrap ((frame.ctx reg).toNat + offset)) 0
  refine ⟨value, by rw [evaluate_constants hdecode hconst, hvalue]; rfl, fun a => ?_, hlt (wrap_lt _)⟩
  rw [addressOf, hreg, Option.bind_some]
  split
  · exact hvalue
  · next hoff =>
    obtain rfl : offset = 0 := not_not.mp hoff
    rw [wrap_self (frame.ctx reg).toNat_lt] at hvalue
    exact hvalue

/-- **A frame base that is planned has its value in the accumulator.** -/
theorem frameBase_value (ctx : PtRegs) (mem : Memory) {frameBase : FrameBase} (hw : frameBase.WellFormed)
    (h : decodeFrameBaseExpression frameBase = .ok base) :
    ∃ value, frameBase.value ctx mem = some value ∧ BaseValue ctx mem base value := by
  obtain ⟨hdecode, hbased, hvalid⟩ := decodeFrameBaseExpression_eq_ok h
  obtain ⟨r, constants, rfl, hconst⟩ := registerBased_eq_true hbased
  obtain ⟨reg, hreg⟩ : ∃ reg, dwarfRegister r = some reg := by
    have hr := (validateLocation_eq_ok hvalid).2 (.register r) (List.mem_cons_self ..)
    simp only [validateOperation] at hr
    split at hr
    · cases hr
    · exact dwarfRegister_of_le (by omega)
  obtain ⟨expression, cfa⟩ := frameBase
  rcases expression with - | ⟨op, rest⟩
  · cases hdecode
  obtain ⟨first, hfirst, hdecode⟩ := bind_eq_ok.mp hdecode
  obtain ⟨others, hothers, hdecode⟩ := bind_eq_ok.mp hdecode
  have hsplit : first ++ others = .register r :: constants := Except.ok.inj hdecode
  -- A start `register q :: (offset)` of the frame base, read by `address`.
  have hoffset : ∀ {q : ℕ} {offset : ℤ},
      first = .register q :: (if offset ≠ 0 then [.addConstant offset] else []) → q = r ∧
        (∀ o ∈ others, ∃ c, o = .addConstant c) ∧
        .register r :: constants
          = .register r :: ((if offset ≠ 0 then [.addConstant offset] else []) ++ others) := by
    rintro q offset rfl
    obtain ⟨hq, htail⟩ := List.cons.inj hsplit
    refine ⟨LocationOperation.register.inj hq, fun o ho => hconst o ?_, by rw [← htail]; rfl⟩
    rw [← htail]
    exact List.mem_append_right _ ho
  cases op with
  | register q =>
    obtain rfl := hw q rest rfl
    cases hothers
    obtain rfl := Except.ok.inj hfirst
    obtain ⟨hq, rfl⟩ := List.cons.inj hsplit
    obtain rfl := LocationOperation.register.inj hq
    refine ⟨(ctx reg).toNat, ?_, fun a => ?_, (ctx reg).toNat_lt⟩
    · simp [FrameBase.value, Frame.evaluate, hreg]
    · rw [addressOf, hreg]
      rfl
  | registerOffset q offset =>
    obtain ⟨rfl, hc, hbase⟩ := hoffset (Except.ok.inj hfirst).symm
    obtain ⟨value, hvalue, hbv⟩ := baseValue_of_offset
      ⟨ctx, mem, none, cfa.toOption.bind (CfaRule.address ctx)⟩ offset hreg hothers hc
    refine ⟨value, ?_, hbase ▸ hbv⟩
    simp only [FrameBase.value, Frame.evaluate, hreg, Option.bind_some, hvalue]
  | callFrameCFA =>
    obtain ⟨rule, hrule, hfirst⟩ := bind_eq_ok.mp hfirst
    cases rule with
    | registerAndOffset q offset =>
      simp only [cfaRuleOperations] at hfirst
      split at hfirst
      · obtain ⟨rfl, hc, hbase⟩ := hoffset (Except.ok.inj hfirst).symm
        obtain ⟨value, hvalue, hbv⟩ := baseValue_of_offset
          ⟨ctx, mem, none, cfa.toOption.bind (CfaRule.address ctx)⟩ offset hreg hothers hc
        refine ⟨value, ?_, hbase ▸ hbv⟩
        obtain rfl : cfa = .ok (.registerAndOffset q offset) := hrule
        simp only [Except.toOption, Option.bind_some, CfaRule.address, hreg, Option.map_some] at hvalue
        simp only [FrameBase.value, Frame.evaluate, Except.toOption, Option.bind_some, CfaRule.address,
          hreg, Option.map_some, hvalue]
      · cases hfirst
    | expression => cases hfirst
  | plusConstant c =>
    obtain ⟨c', -, hfirst⟩ := bind_eq_ok.mp hfirst
    obtain rfl := Except.ok.inj hfirst
    cases hsplit
  | frameOffset _ | deref _ | stackValue | piece _ | other _ | unread _ => cases hfirst

/-! ### Locations -/

/-- The operations of a frame base: registers and constants. -/
def LocationOperation.sums : LocationOperation → Bool
  | .register _ | .addConstant _ => true
  | _ => false

theorem registerBased_sums (h : registerBased base = true) : ∀ op ∈ base, op.sums = true := by
  obtain ⟨r, rest, rfl, hrest⟩ := registerBased_eq_true h
  intro op hop
  rcases List.mem_cons.mp hop with rfl | hop
  · rfl
  · obtain ⟨c, rfl⟩ := hrest op hop
    rfl

theorem splice_plain {operations : List LocationOperation}
    (h : operations.any LocationOperation.isFrameOffset = false) (saw : Bool) :
    spliceFrameBase base saw operations = .ok operations := by
  induction operations generalizing saw with
  | nil => cases saw <;> rfl
  | cons op rest ih =>
    rw [List.any_cons, Bool.or_eq_false_iff] at h
    cases op with
    | frameOffset offset => simp [LocationOperation.isFrameOffset] at h
    | register _ | addConstant _ | dereference _ | stackValue | piece _ | unsupported _ =>
      cases saw <;>
      · unfold spliceFrameBase
        rw [ih h.2]
        rfl

theorem frameOffset_mem {offset : ℤ} {operations : List LocationOperation}
    (h : decodeExpression expression = .ok operations) (hmem : .frameOffset offset ∈ expression) :
    .frameOffset offset ∈ operations := by
  induction expression generalizing operations with
  | nil => cases hmem
  | cons op rest ih =>
    obtain ⟨first, hfirst, h⟩ := bind_eq_ok.mp h
    obtain ⟨others, hothers, h⟩ := bind_eq_ok.mp h
    obtain rfl := Except.ok.inj h
    rcases List.mem_cons.mp hmem with rfl | hmem
    · obtain rfl := Except.ok.inj hfirst
      exact List.mem_append_left _ (List.mem_cons_self ..)
    · exact List.mem_append_right _ (ih hothers hmem)

/-- The frame base of the variable, when there is one, is not a register with
more behind it. -/
def Variable.FrameWellFormed (v : Variable) : Prop := ∀ b, v.frameBase = some b → b.WellFormed

/-- The value of the frame base. -/
def Variable.frameValue (v : Variable) (ctx : PtRegs) (mem : Memory) : Option ℕ :=
  v.frameBase.bind (FrameBase.value ctx mem)

/-- The operations of a location whose expression computes an address and goes on. -/
theorem located_of (ctx : PtRegs) (mem : Memory) {frameBase : Option (List LocationOperation)}
    {tail : List Operation}
    (hframe : ∀ offset, .frameOffset offset ∈ expression → v.FrameWellFormed)
    (hbase : v.frameBase.mapM decodeFrameBaseExpression = .ok frameBase)
    (hops : ∀ op ∈ expression, op.addressing = true)
    (h : locationOperations frameBase (expression ++ tail) = .ok located) :
    ∃ base front saw rest end', located = front ++ end' ∧ Locates base expression front ∧
      decodeExpression tail = .ok rest ∧ spliceFrameBase base saw rest = .ok end' ∧
      (∀ op ∈ base, op.sums = true) ∧ (base = [] ∨ frameBase = some base) ∧
      ∀ offset, .frameOffset offset ∈ expression →
        ∃ value, v.frameValue ctx mem = some value ∧ BaseValue ctx mem base value := by
  obtain ⟨operations, hdecode, h⟩ := bind_eq_ok.mp h
  split at h
  · rcases frameBase with - | base
    · cases h
    · obtain ⟨hbased, hsplice⟩ := applyFrameBase_eq_ok h
      obtain ⟨front, saw, rest, end', rfl, hl, hrest, hend⟩ := locates_of_splice hops hdecode hsplice
      refine ⟨base, front, saw, rest, end', rfl, hl, hrest, hend, registerBased_sums hbased, Or.inr rfl,
        fun offset hoffset => ?_⟩
      rcases hb : v.frameBase with - | b
      · rw [hb] at hbase
        cases hbase
      · rw [hb] at hbase
        obtain ⟨ops, hops, hbase⟩ := bind_eq_ok.mp hbase
        obtain rfl := Option.some.inj (Except.ok.inj hbase)
        obtain ⟨value, hvalue, hbv⟩ := frameBase_value ctx mem (hframe offset hoffset b hb) hops
        exact ⟨value, by rw [Variable.frameValue, hb]; exact hvalue, hbv⟩
  · next hany =>
    have hany : operations.any LocationOperation.isFrameOffset = false := by simpa using hany
    obtain rfl := Except.ok.inj h
    obtain ⟨front, saw, rest, end', rfl, hl, hrest, hend⟩ :=
      locates_of_splice hops hdecode (splice_plain hany false)
    refine ⟨[], front, saw, rest, end', rfl, hl, hrest, hend, by simp, Or.inl rfl, fun offset hoff => ?_⟩
    have hmem := frameOffset_mem hdecode (List.mem_append_left tail hoff)
    exact absurd rfl (List.any_eq_false.mp hany _ hmem)

/-- Dereferences of an expression that never get narrower. -/
def Operation.WidensFrom : ℕ → List Operation → Prop
  | _, [] => True
  | k, .deref m :: rest => k ≤ m ∧ Operation.WidensFrom m rest
  | k, _ :: rest => Operation.WidensFrom k rest

theorem widensFrom_sums {k : ℕ} {front l : List LocationOperation} (hfront : ∀ op ∈ front, op.sums = true)
    (h : WidensFrom k l) : WidensFrom k (front ++ l) := by
  induction front with
  | nil => exact h
  | cons op rest ih =>
    have hrest := ih fun o ho => hfront o (List.mem_cons_of_mem _ ho)
    have hop := hfront op (List.mem_cons_self ..)
    cases op with
    | register _ | addConstant _ => exact hrest
    | dereference _ | frameOffset _ | stackValue | piece _ | unsupported _ => cases hop

theorem sums_offset (hbase : ∀ op ∈ base, op.sums = true) (offset : ℤ) :
    ∀ op ∈ base ++ (if offset ≠ 0 then [LocationOperation.addConstant offset] else []), op.sums = true := by
  intro op hop
  rcases List.mem_append.mp hop with hop | hop
  · exact hbase op hop
  · split at hop
    · obtain rfl := List.mem_singleton.mp hop
      rfl
    · cases hop

theorem Locates.widens (hl : Locates base expression located) (hbase : ∀ op ∈ base, op.sums = true) {k : ℕ}
    (h : Operation.WidensFrom k expression) : WidensFrom k located := by
  induction hl generalizing k with
  | nil => exact h
  | registerOffset r offset _ ih => exact ih h
  | frameOffset offset _ ih => exact widensFrom_sums (sums_offset hbase offset) (ih h)
  | plusConstant c _ ih => exact ih h
  | deref m _ ih => exact ⟨h.1, ih h.2⟩

/-- What is planned of an address computes an address. -/
theorem Locates.addressing (hl : Locates base expression located) (hbase : ∀ op ∈ base, op.sums = true)
    (hops : ∀ op ∈ expression, op.addressing = true)
    (hvalid : ∀ op ∈ located, validateOperation op = .ok ()) : ∀ op ∈ located, op.addressing = true := by
  have hsums : ∀ {op : LocationOperation}, op.sums = true → validateOperation op = .ok () →
      op.addressing = true := by
    intro op hop hv
    cases op with
    | addConstant _ => rfl
    | register r =>
      simp only [validateOperation] at hv
      split at hv
      · cases hv
      · exact decide_eq_true (by omega)
    | dereference _ | frameOffset _ | stackValue | piece _ | unsupported _ => cases hop
  induction hl with
  | nil => exact fun op hop => by cases hop
  | registerOffset r offset _ ih =>
    intro op hop
    rcases List.mem_cons.mp hop with rfl | hop'
    · exact hsums rfl (hvalid _ hop)
    rcases List.mem_cons.mp hop' with rfl | hop'
    · rfl
    · exact ih (fun o ho => hops o (List.mem_cons_of_mem _ ho)) (fun o ho => hvalid o (by simp [ho])) op hop'
  | frameOffset offset _ ih =>
    intro op hop
    rcases List.mem_append.mp hop with hop' | hop'
    · exact hsums (sums_offset hbase offset op hop') (hvalid _ hop)
    · exact ih (fun o ho => hops o (List.mem_cons_of_mem _ ho))
        (fun o ho => hvalid o (List.mem_append_right _ ho)) op hop'
  | plusConstant c _ ih =>
    intro op hop
    rcases List.mem_cons.mp hop with rfl | hop'
    · rfl
    · exact ih (fun o ho => hops o (List.mem_cons_of_mem _ ho)) (fun o ho => hvalid o (by simp [ho])) op hop'
  | deref m _ ih =>
    intro op hop
    rcases List.mem_cons.mp hop with rfl | hop'
    · exact hops (.deref m) (List.mem_cons_self ..)
    · exact ih (fun o ho => hops o (List.mem_cons_of_mem _ ho)) (fun o ho => hvalid o (by simp [ho])) op hop'

/-- Operations that leave an address in the accumulator, whatever their numbers. -/
def LocationOperation.computes : LocationOperation → Bool
  | .register _ | .addConstant _ | .dereference _ => true
  | _ => false

theorem Locates.computes (hl : Locates base expression located) (hbase : ∀ op ∈ base, op.sums = true) :
    ∀ op ∈ located, op.computes = true := by
  have hsums : ∀ {op : LocationOperation}, op.sums = true → op.computes = true := by
    intro op hop
    cases op <;> first | rfl | cases hop
  induction hl with
  | nil => exact fun op hop => by cases hop
  | registerOffset r offset _ ih => simpa using ⟨rfl, rfl, ih⟩
  | frameOffset offset _ ih =>
    intro op hop
    rcases List.mem_append.mp hop with hop | hop
    · exact hsums (sums_offset hbase offset op hop)
    · exact ih op hop
  | plusConstant c _ ih => simpa using ⟨rfl, ih⟩
  | deref m _ ih => simpa using ⟨rfl, ih⟩

theorem Locates.eq_nil (hl : Locates base expression []) (hbase : base ≠ []) : expression = [] := by
  generalize hnil : ([] : List LocationOperation) = l at hl
  cases hl with
  | nil => rfl
  | frameOffset offset _ =>
    have := List.append_eq_nil_iff.mp hnil.symm
    exact absurd (List.append_eq_nil_iff.mp this.1).1 hbase
  | registerOffset _ _ _ => cases hnil
  | plusConstant _ _ => cases hnil
  | deref _ _ => cases hnil

/-- Only the frame base itself, without an offset, leaves a register at the end. -/
theorem Locates.getLast_register (hl : Locates base expression located) {r : ℕ}
    (h : located.getLast? = some (.register r)) :
    expression.getLast? = some (.frameOffset 0) ∧ base.getLast? = some (.register r) := by
  induction hl with
  | nil => cases h
  | @registerOffset q offset e l hl ih =>
    rcases l with - | ⟨op, l⟩
    · simp at h
    · obtain ⟨he, hb⟩ := ih (by simpa using h)
      exact ⟨List.mem_getLast?_cons he, hb⟩
  | @frameOffset offset e l hl ih =>
    rcases hnil : l with - | ⟨op, l'⟩
    · subst hnil
      rw [List.append_nil] at h
      split at h
      · simp at h
      · next hoff =>
        obtain rfl : offset = 0 := not_not.mp hoff
        have hb : base.getLast? = some (.register r) := by simpa using h
        obtain rfl := hl.eq_nil (by rintro rfl; cases hb)
        exact ⟨rfl, hb⟩
    · rw [getLast?_append_right (by simp [hnil])] at h
      obtain ⟨he, hb⟩ := ih h
      exact ⟨List.mem_getLast?_cons he, hb⟩
  | @plusConstant c e l hl ih =>
    rcases l with - | ⟨op, l⟩
    · simp at h
    · obtain ⟨he, hb⟩ := ih (by simpa using h)
      exact ⟨List.mem_getLast?_cons he, hb⟩
  | @deref m e l hl ih =>
    rcases l with - | ⟨op, l⟩
    · simp at h
    · obtain ⟨he, hb⟩ := ih (by simpa using h)
      exact ⟨List.mem_getLast?_cons he, hb⟩

/-! ### Fetches -/

theorem addressOf_lt {l : List LocationOperation} (hl : ∀ op ∈ l, op.addressing = true) {a b : ℕ}
    (ha : a < 2 ^ 64) (h : addressOf ctx mem a l = some b) : b < 2 ^ 64 := by
  induction l generalizing a with
  | nil =>
    obtain rfl := Option.some.inj h
    exact ha
  | cons op l ih =>
    have hrest : ∀ o ∈ l, o.addressing = true := fun o ho => hl o (List.mem_cons_of_mem _ ho)
    have hop := hl op (List.mem_cons_self ..)
    cases op with
    | register r =>
      obtain ⟨reg, -, h⟩ := Option.bind_eq_some_iff.mp h
      exact ih hrest (ctx reg).toNat_lt h
    | addConstant c => exact ih hrest (wrap_lt _) h
    | dereference m =>
      obtain ⟨bytes, -, h⟩ := Option.bind_eq_some_iff.mp h
      refine ih hrest ((word_lt bytes m).trans_le ?_) h
      have hm := of_decide_eq_true hop
      simp only [List.mem_cons, List.not_mem_nil, or_false] at hm
      rcases hm with rfl | rfl | rfl | rfl <;> norm_num
    | frameOffset _ | stackValue | piece _ | unsupported _ => cases hop

/-- A run of location operations in a slot. -/
abbrev locationRun (ctx : PtRegs) (mem : Memory) (s : CaptureState) (slot : ℕ)
    (operations : List LocationOperation) : CaptureState :=
  captureRun ctx mem s (operations.map (LocationOperation.toCaptureOp slot))

section Fetch

variable {front : List LocationOperation} (hslot : slot < MAX_CAPTURE_SLOTS)
  (hfront : ∀ op ∈ front, op.addressing = true) (hwidens : WidensFrom 0 front) (hclean : s.CleanFrom slot 0)
include hslot hfront hwidens hclean

/-- The plan of an address and one more operation. -/
theorem locationRun_last {last : LocationOperation}
    (h : (locationRun ctx mem s slot (front ++ [last])).event.flags = 0) :
    ∃ t : CaptureState, addressOf ctx mem s.value front = some t.value ∧
      locationRun ctx mem s slot (front ++ [last]) = captureStep ctx mem t (last.toCaptureOp slot) := by
  have hrun : locationRun ctx mem s slot (front ++ [last])
      = captureStep ctx mem (locationRun ctx mem s slot front) (last.toCaptureOp slot) := by
    rw [locationRun, List.map_append, captureRun_append]
    rfl
  rw [hrun] at h
  exact ⟨_, captureRun_address hslot hfront hwidens hclean (captureStep_flags h), hrun⟩

/-- A fetch leaves the bytes at the address in the slot. -/
theorem locationRun_fetch {m : ℕ}
    (h : (locationRun ctx mem s slot (front ++ [LocationOperation.dereference m])).event.flags = 0) :
    ∃ a bytes, addressOf ctx mem s.value front = some a ∧ mem.read a m = some bytes ∧
      (locationRun ctx mem s slot (front ++ [LocationOperation.dereference m])).event.widths slot = m ∧
      ∀ i < m, (locationRun ctx mem s slot
        (front ++ [LocationOperation.dereference m])).event.values slot i = bytes i := by
  obtain ⟨t, ht, hrun⟩ := locationRun_last hslot hfront hwidens hclean h
  rw [hrun] at h ⊢
  obtain ⟨bytes, hread, heq⟩ := captureStep_dereference hslot h
  refine ⟨t.value, bytes, ht, hread, ?_⟩
  have hstore : ∀ i < m, (t.store slot m bytes).event.values slot i = bytes i := fun i hi => by
    rw [CaptureState.store_values, if_pos hi]
  rw [heq]
  split
  · exact ⟨CaptureState.store_widths .., hstore⟩
  · exact ⟨CaptureState.store_widths .., hstore⟩

/-- A value is left in the slot with all its eight bytes. -/
theorem locationRun_value
    (h : (locationRun ctx mem s slot (front ++ [LocationOperation.stackValue])).event.flags = 0) :
    ∃ a, addressOf ctx mem s.value front = some a ∧
      (locationRun ctx mem s slot (front ++ [LocationOperation.stackValue])).event.widths slot = 8 ∧
      ∀ i < 8, (locationRun ctx mem s slot
        (front ++ [LocationOperation.stackValue])).event.values slot i = leByte a i := by
  obtain ⟨t, ht, hrun⟩ := locationRun_last hslot hfront hwidens hclean h
  rw [hrun]
  refine ⟨t.value, ht, ?_⟩
  rw [captureStep_stackValue hslot]
  exact ⟨CaptureState.store_widths .., fun i hi => by rw [CaptureState.store_values, if_pos hi]⟩

end Fetch

/-! ### Nodes -/

theorem signExtend_eq {width : ℕ} (hw : width ∈ [1, 2, 4, 8]) {n : ℕ} (hn : n < 256 ^ width) :
    signExtend width n = signed width n := by
  simp only [List.mem_cons, List.not_mem_nil, or_false] at hw
  unfold signExtend signed
  simp only [Int.shiftRight_eq_div_pow]
  rcases hw with rfl | rfl | rfl | rfl <;> norm_num at hn ⊢ <;> split <;> split <;> omega

/-- The bytes of a scalar decode to the value of their word. -/
theorem dwarfNode_scalar {kind : ValueKind} (hk : kind ≠ .cString) {width : ℕ}
    (hw : width ∈ [1, 2, 4, 8]) (bytes : ℕ → UInt8) :
    dwarfNode mem kind width (word bytes width) = some (nodeOf kind width bytes) := by
  cases kind with
  | signed =>
    unfold dwarfNode nodeOf
    rw [signExtend_eq hw (word_lt bytes width)]
  | unsigned => rfl
  | boolean => rfl
  | pointer => rfl
  | cString => exact absurd rfl hk

/-- The eight bytes of a value are those of the type, extended. -/
def Extends (kind : ValueKind) (width n : ℕ) : Prop :=
  match kind with
  | .signed => signed 8 n = signed width (n % 256 ^ width)
  | .unsigned | .pointer | .cString => n < 256 ^ width
  | .boolean => n % 256 ^ width = 0 → n = 0

theorem dwarfNode_extends {kind : ValueKind} (hk : kind ≠ .cString) {width n : ℕ} (hn : n < 2 ^ 64)
    (h : Extends kind width n) {bytes : ℕ → UInt8} (hbytes : ∀ i < 8, bytes i = leByte n i) :
    dwarfNode mem kind width (n % 256 ^ width) = some (nodeOf kind 8 bytes) := by
  have hword : word bytes 8 = n := by
    rw [word_congr hbytes, word_leByte, Nat.mod_eq_of_lt (by norm_num; omega)]
  unfold dwarfNode nodeOf
  cases kind with
  | signed =>
    simp only [hword]
    rw [signExtend_eq (by decide) (by norm_num; omega), show signed 8 n = _ from h]
  | unsigned =>
    simp only [hword]
    rw [Nat.mod_eq_of_lt h]
  | boolean =>
    simp only [hword]
    by_cases hz : n = 0
    · simp [hz]
    · have : n % 256 ^ width ≠ 0 := fun e => hz (h e)
      simp [hz, this]
  | pointer =>
    simp only [hword]
    rw [Nat.mod_eq_of_lt h]
  | cString => exact absurd rfl hk

/-- A text is decoded from the bytes at the pointer. -/
theorem dwarfNode_text {width n : ℕ} {bytes values : ℕ → UInt8} (hread : mem.read n MAX_SLOT_BYTES = some bytes)
    (hvalues : ∀ i < MAX_SLOT_BYTES, values i = bytes i) :
    dwarfNode mem .cString width n = some (nodeOf .cString MAX_SLOT_BYTES values) := by
  have hmap : (List.range MAX_SLOT_BYTES).map values = (List.range MAX_SLOT_BYTES).map bytes :=
    List.map_congr_left fun i hi => hvalues i (List.mem_range.mp hi)
  simp only [dwarfNode, hread, Option.map_some, nodeOf, hmap]

/-! ### Which variables are read -/

/-- An expression that computes an address: it starts at a register, and no
dereference is narrower than one before it. -/
structure Chain (expression : List Operation) : Prop where
  start : ∃ op rest, expression = op :: rest ∧ op.readsRegister = true
  addressing : ∀ op ∈ expression, op.addressing = true
  widens : Operation.WidensFrom 0 expression

/-- The location is the frame base itself, and that is a register without an offset. -/
def Variable.BareFrame (v : Variable) (expression : List Operation) : Prop :=
  expression.getLast? = some (.frameOffset 0) ∧
    ∃ b r, v.frameBase = some b ∧ decodeFrameBaseExpression b = .ok [.register r]

/-- The operations added at the end fetch from the address of the location. -/
def Variable.Fetched (v : Variable) (expression : List Operation) : Prop :=
  if v.memberOffset ≠ 0 then ∀ m, expression.getLast? ≠ some (.deref m)
  else if v.kind = .cString then expression.getLast? ≠ some (.deref 8) ∧ ¬ v.BareFrame expression
  else (∀ m, expression.getLast? ≠ some (.deref m)) ∧ ¬ v.BareFrame expression

/-- No plan is made for the variable. -/
def Variable.Refused (v : Variable) : Prop :=
  ∀ path slot resolved planned, resolveVariable v = .ok resolved →
    normalize path resolved.operations slot ≠ .ok planned

/-- A sum on the zero the accumulator starts with is a user address. -/
def startsAddress (offset : ℤ) : Prop := 0 < offset ∧ offset ≤ userLimit

/-- An expression that puts nothing on the stack first, and whose plan begins with a fetch
or with a sum that is no user address. -/
def Variable.Unbased (v : Variable) : List Operation → Prop
  | [] | [.deref _] => ¬ startsAddress v.memberOffset
  | .deref _ :: _ => True
  | .plusConstant c :: _ => ¬ startsAddress c
  | _ => False

/-- The variables whose plans, if there are any, read their values: those at an
address that is fetched from, and those in a register or a value that holds the
type extended to eight bytes; and those without a value that are never read. -/
inductive Variable.Covered (v : Variable) (ctx : PtRegs) (mem : Memory) : Prop
  | refused (h : v.Refused)
  | unbased {expression : List Operation} (location : v.location = .ok expression) (h : v.Unbased expression)
  | address {expression : List Operation} (location : v.location = .ok expression)
      (chain : Chain expression) (frame : ∀ offset, .frameOffset offset ∈ expression → v.FrameWellFormed)
      (pointer : v.kind = .cString → ∀ a bytes, v.dwarfLocation ctx mem = some (.memory a) →
        mem.read (wrap (a + v.memberOffset)) 8 = some bytes → word bytes 8 < 256 ^ v.scalarWidth)
      (fetched : v.Fetched expression)
  | register {r : ℕ} (location : v.location = .ok [.register r]) (root : v.memberOffset = 0)
      (extends_ : ∀ reg, dwarfRegister r = some reg → Extends v.kind v.scalarWidth (ctx reg).toNat)
  | value {expression : List Operation} (location : v.location = .ok (expression ++ [.stackValue]))
      (chain : Chain expression) (frame : ∀ offset, .frameOffset offset ∈ expression → v.FrameWellFormed)
      (root : v.memberOffset = 0)
      (extends_ : ∀ n, v.dwarfLocation ctx mem = some (.value n) → Extends v.kind v.scalarWidth n)

/-- A plan is sound when its unflagged runs leave the value in the slot. -/
theorem Variable.sound_of_run
    (h : ∀ slot resolved s, slot < MAX_CAPTURE_SLOTS → resolveVariable v = .ok resolved →
      s.value = 0 → s.CleanFrom slot 0 → (locationRun ctx mem s slot resolved.operations).event.flags = 0 →
      ((locationRun ctx mem s slot resolved.operations).event.widths slot ∈ [1, 2, 4, 8] ∨
        v.kind = .cString ∧ (locationRun ctx mem s slot resolved.operations).event.widths slot = 64) ∧
      v.dwarfValue ctx mem
        = some (nodeOf v.kind ((locationRun ctx mem s slot resolved.operations).event.widths slot)
            ((locationRun ctx mem s slot resolved.operations).event.values slot))) :
    v.Sound ctx mem := by
  intro path slot resolved planned request plan hresolved hnorm hrequest hplan
  obtain ⟨hslot, hvalid, hops, hown, -⟩ := normalize_eq_ok hnorm
  obtain ⟨-, hcounted, -⟩ := capturePlan_eq_ok hplan
  have hrun : liveprobeSnapshot ctx mem plan request.cookie
      = (locationRun ctx mem ⟨0, emptyRecord plan request.cookie⟩ slot resolved.operations).event := by
    rw [liveprobeSnapshot_eq hplan, hrequest, hops]
  have hhead : (locationRun ctx mem ⟨0, emptyRecord plan request.cookie⟩ slot
      resolved.operations).event.head = (emptyRecord plan request.cookie).head := captureRun_head _
  by_cases hflags : (liveprobeSnapshot ctx mem plan request.cookie).flags = 0
  swap
  · exact Or.inl hflags
  right
  rw [hrun] at hflags ⊢
  obtain ⟨hwidth, hvalue⟩ := h slot resolved _ hslot hresolved rfl (fun _ _ _ => rfl) hflags
  refine ⟨_, hvalue, ?_⟩
  obtain ⟨_, _, _, -, -, -, -, hkind, -⟩ := resolveVariable_eq_ok hresolved
  rw [hkind]
  have hcount : slot < plan.slotCount := by
    obtain ⟨op, hop⟩ : ∃ op, op ∈ planned.operations := by
      refine List.exists_mem_of_ne_nil _ fun hnil => (validateLocation_eq_ok hvalid).1 ?_
      rw [hnil] at hops
      exact List.map_eq_nil_iff.mp hops.symm
    rw [← hown op hop]
    exact hcounted op (by rw [hrequest]; exact hop)
  obtain ⟨habi, hslotCount, -⟩ := RawEvent.head_eq hhead
  exact decodeNode_eq habi (by rw [hslotCount]; exact hcount) hslot hwidth

/-! ### Addresses that are fetched from -/

theorem widensFrom_append {k : ℕ} {l tail : List LocationOperation} (hk : k ≤ 8)
    (hl : ∀ op ∈ l, op.addressing = true) (h : WidensFrom k l) (htail : ∀ j ≤ 8, WidensFrom j tail) :
    WidensFrom k (l ++ tail) := by
  induction l generalizing k with
  | nil => exact htail k hk
  | cons op l ih =>
    have hrest : ∀ o ∈ l, o.addressing = true := fun o ho => hl o (List.mem_cons_of_mem _ ho)
    cases op with
    | dereference m =>
      have hm := of_decide_eq_true (hl _ (List.mem_cons_self ..))
      simp only [List.mem_cons, List.not_mem_nil, or_false] at hm
      exact ⟨h.1, ih (by omega) hrest h.2⟩
    | register _ | addConstant _ | frameOffset _ | stackValue | piece _ | unsupported _ => exact ih hk hrest h

section Shapes

variable {offset : ℤ} {kind : ValueKind} {width : ℕ}

theorem fetchOperations_member (hm : offset ≠ 0) (hlast : ∀ m, located.getLast? ≠ some (.dereference m)) :
    fetchOperations located offset kind width =
      if kind = .cString then ((located ++ [.addConstant offset]) ++ [.dereference 8]) ++ [.dereference 64]
      else (located ++ [.addConstant offset]) ++ [.dereference width] := by
  have hroot : addMember located offset kind width = located ++ .addConstant offset ::
      if kind = .cString then [.dereference 8, .dereference 64] else [.dereference width] := by
    unfold addMember
    split
    · next hl => exact absurd hl (hlast _)
    · rfl
  unfold fetchOperations
  simp only [if_pos hm, hroot]
  by_cases hk : kind = .cString <;> simp [hk]

theorem fetchOperations_text {l : List LocationOperation} {op : LocationOperation} (hl : located = l ++ [op])
    (hop : op.computes = true) (hregister : ∀ r, op ≠ .register r) (h8 : op ≠ .dereference 8) :
    fetchOperations located 0 .cString width = (located ++ [.dereference 8]) ++ [.dereference 64] := by
  subst hl
  have htext : addText (l ++ [op]) = ((l ++ [op]) ++ [.dereference 8]) ++ [.dereference 64] := by
    unfold addText
    rw [List.getLast?_concat]
    cases op with
    | register r => exact absurd rfl (hregister r)
    | addConstant _ => simp
    | dereference m =>
      split
      · next h => cases h
      · next h => cases h
      · next h => cases h; exact absurd rfl h8
      · simp
    | frameOffset _ | stackValue | piece _ | unsupported _ => cases hop
  unfold fetchOperations
  simp [htext]

theorem fetchOperations_root {l : List LocationOperation} {c : ℤ} (hl : located = l ++ [.addConstant c])
    (hk : kind ≠ .cString) : fetchOperations located 0 kind width = located ++ [.dereference width] := by
  subst hl
  have hroot : addRoot (l ++ [.addConstant c]) width = (l ++ [.addConstant c]) ++ [.dereference width] := by
    unfold addRoot
    rw [List.getLast?_concat]
  unfold fetchOperations
  simp [hroot, hk]

end Shapes

/-- What is known of the operations planned for a location that computes an
address and ends in `tail`. -/
structure Planned (v : Variable) (ctx : PtRegs) (mem : Memory) (expression tail : List Operation)
    (finish : ℕ → VariableLocation) (resolved : VariablePlan) (front tail' : List LocationOperation) :
    Prop where
  operations : resolved.operations = fetchOperations (front ++ tail') v.memberOffset v.kind v.width
  computes : ∀ op ∈ front, op.computes = true
  addressing : (∀ op ∈ front, op ∈ resolved.operations) → ∀ op ∈ front, op.addressing = true
  widens : WidensFrom 0 front
  register : ∀ r, front.getLast? = some (.register r) → v.BareFrame expression
  nonempty : front ≠ []
  deref : ∀ m, (front ++ tail').getLast? = some (.dereference m) ↔
    (expression ++ tail).getLast? = some (.deref m)
  location : ∀ a, v.dwarfLocation ctx mem = (addressOf ctx mem a front).map finish

theorem Chain.planned (hchain : Chain expression)
    (hframe : ∀ offset, .frameOffset offset ∈ expression → v.FrameWellFormed) (ctx : PtRegs) (mem : Memory)
    (tail : List Operation) (tail' : List LocationOperation) (finish : ℕ → VariableLocation)
    (hexpr : v.location = .ok (expression ++ tail))
    (htail : ∀ base saw rest end', decodeExpression tail = .ok rest →
      spliceFrameBase base saw rest = .ok end' → end' = tail')
    (hfinish : ∀ (frame : Frame) a stack, frame.evaluate (a :: stack) tail = some (finish a))
    {resolved : VariablePlan} (hresolved : resolveVariable v = .ok resolved) :
    ∃ front, Planned v ctx mem expression tail finish resolved front tail' := by
  obtain ⟨frameBase, expression', located, hbase, hexpr', hlocated, hops, -, hvalid⟩ :=
    resolveVariable_eq_ok hresolved
  obtain rfl : expression ++ tail = expression' := Except.ok.inj (hexpr.symm.trans hexpr')
  obtain ⟨base, front, saw, rest, end', rfl, hl, hrest, hend, hsums, hframeBase, hvalue⟩ :=
    located_of ctx mem hframe hbase hchain.addressing hlocated
  obtain rfl := htail base saw rest end' hrest hend
  have hnonempty : front ≠ [] := by
    obtain ⟨op, rest', rfl, hop⟩ := hchain.start
    rintro rfl
    have hnil : base = [] := by
      by_contra hne
      cases hl.eq_nil hne
    subst hnil
    cases op with
    | frameOffset offset =>
      -- No value is left in the accumulator by no operation.
      obtain ⟨value, -, hbv⟩ := hvalue offset (List.mem_cons_self ..)
      have h0 : 0 = value := Option.some.inj (hbv.address 0)
      have h1 : 1 = value := Option.some.inj (hbv.address 1)
      omega
    | registerOffset _ _ => cases hl
    | register _ => exact absurd (hchain.addressing _ (List.mem_cons_self ..)) (by simp [Operation.addressing])
    | plusConstant _ | deref _ | stackValue | piece _ | callFrameCFA | other _ | unread _ => cases hop
  refine ⟨front, hops, hl.computes hsums, fun h => ?_, hl.widens hsums hchain.widens, fun r hr => ?_, hnonempty,
    fun m => locationOperations_getLast hlocated, fun a => ?_⟩
  · exact hl.addressing hsums hchain.addressing fun op hop => (validateLocation_eq_ok hvalid).2 op (h op hop)
  · obtain ⟨hlast, hbaseLast⟩ := hl.getLast_register hr
    rcases hframeBase with rfl | rfl
    · cases hbaseLast
    rcases hb : v.frameBase with - | b
    · rw [hb] at hbase
      cases hbase
    · rw [hb] at hbase
      obtain ⟨ops, hdecode, hbase⟩ := bind_eq_ok.mp hbase
      obtain rfl := Option.some.inj (Except.ok.inj hbase)
      obtain ⟨q, constants, rfl, hconst⟩ := registerBased_eq_true (decodeFrameBaseExpression_eq_ok hdecode).2.1
      rcases constants with - | ⟨c, constants⟩
      · exact ⟨hlast, b, q, hb, hdecode⟩
      · rw [List.getLast?_cons_cons] at hbaseLast
        obtain ⟨c', hc⟩ := hconst _ (List.mem_of_getLast? hbaseLast)
        cases hc
  · rw [Variable.dwarfLocation, hexpr]
    exact evaluate_start hl hchain.addressing hvalue (hfinish _) hchain.start a

/-- The operations up to the address of the variable or its member. -/
def withMember (front : List LocationOperation) (offset : ℤ) : List LocationOperation :=
  front ++ if offset ≠ 0 then [.addConstant offset] else []

/-- Where the address is fetched from, the fetch stands at the end. -/
theorem Planned.fetched {resolved : VariablePlan} {front : List LocationOperation}
    (h : Planned v ctx mem expression [] .memory resolved front []) (hf : v.Fetched expression) :
    resolved.operations =
      if v.kind = .cString then
        (withMember front v.memberOffset ++ [.dereference 8]) ++ [.dereference 64]
      else withMember front v.memberOffset ++ [.dereference v.scalarWidth] := by
  have hops := h.operations
  have hderef := h.deref
  simp only [List.append_nil] at hops hderef
  rw [hops]
  unfold Variable.Fetched at hf
  unfold withMember
  by_cases hm : v.memberOffset = 0
  swap
  · rw [if_pos hm] at hf
    rw [fetchOperations_member hm fun m hl => hf m ((hderef m).mp hl), if_pos hm]
    by_cases hk : v.kind = .cString
    · rw [if_pos hk, if_pos hk]
    · rw [if_neg hk, if_neg hk, Variable.width, if_neg hk]
  rw [if_neg (not_not.mpr hm)] at hf
  obtain ⟨l, op, hl⟩ : ∃ l op, front = l ++ [op] :=
    ⟨front.dropLast, front.getLast h.nonempty, (List.dropLast_concat_getLast h.nonempty).symm⟩
  have hlast : front.getLast? = some op := by rw [hl, List.getLast?_concat]
  have hop : op.computes = true := h.computes op (by simp [hl])
  have hplain : front ++ (if (0 : ℤ) ≠ 0 then [.addConstant 0] else []) = front := by simp
  rw [hm, hplain]
  by_cases hk : v.kind = .cString
  · rw [if_pos hk] at hf ⊢
    rw [hk]
    refine fetchOperations_text hl hop (fun r hr => hf.2 (h.register r (by rw [hlast, hr]))) fun h8 => ?_
    exact hf.1 ((hderef 8).mp (by rw [hlast, h8]))
  · rw [if_neg hk] at hf ⊢
    cases op with
    | addConstant c => rw [fetchOperations_root hl hk, Variable.width, if_neg hk]
    | register r => exact absurd (h.register r hlast) hf.2
    | dereference m => exact absurd ((hderef m).mp hlast) (hf.1 m)
    | frameOffset _ | stackValue | piece _ | unsupported _ => cases hop

theorem nodeOf_congr {kind : ValueKind} {width : ℕ} {b c : ℕ → UInt8} (h : ∀ i < width, b i = c i) :
    nodeOf kind width b = nodeOf kind width c := by
  have hmap : (List.range width).map b = (List.range width).map c :=
    List.map_congr_left fun i hi => h i (List.mem_range.mp hi)
  simp only [nodeOf, word_congr h, hmap]

theorem dwarfValue_memory {b : ℕ} {bytes : ℕ → UInt8} (hloc : v.dwarfLocation ctx mem = some (.memory b))
    (hread : mem.read (wrap (b + v.memberOffset)) v.scalarWidth = some bytes) :
    v.dwarfValue ctx mem = dwarfNode mem v.kind v.scalarWidth (word bytes v.scalarWidth) := by
  simp only [Variable.dwarfValue, hloc, Option.bind_some, VariableLocation.number, hread, Option.map_some]

/-- **A variable at an address that is fetched from is read.** -/
theorem sound_address (location : v.location = .ok expression) (chain : Chain expression)
    (frame : ∀ offset, .frameOffset offset ∈ expression → v.FrameWellFormed)
    (pointer : v.kind = .cString → ∀ a bytes, v.dwarfLocation ctx mem = some (.memory a) →
      mem.read (wrap (a + v.memberOffset)) 8 = some bytes → word bytes 8 < 256 ^ v.scalarWidth)
    (fetched : v.Fetched expression) : v.Sound ctx mem := by
  refine Variable.sound_of_run fun slot resolved s hslot hresolved _ hclean hflags => ?_
  obtain ⟨front, hp⟩ := chain.planned frame ctx mem [] [] .memory (by simpa using location)
    (by rintro base saw rest end' h₁ h₂; cases h₁; cases saw <;> exact (Except.ok.inj h₂).symm)
    (fun _ _ _ => rfl) hresolved
  have hops := hp.fetched fetched
  have haddressing : ∀ op ∈ withMember front v.memberOffset, op.addressing = true := by
    have hfront : ∀ op ∈ front, op.addressing = true := by
      refine hp.addressing fun op hop => ?_
      rw [hops]
      split <;> simp [withMember, hop]
    intro op hop
    rcases List.mem_append.mp hop with hop | hop
    · exact hfront op hop
    · split at hop
      · obtain rfl := List.mem_singleton.mp hop
        rfl
      · cases hop
  have hwidens : WidensFrom 0 (withMember front v.memberOffset) := by
    refine widensFrom_append (by omega) (fun op hop => haddressing op (List.mem_append_left _ hop)) hp.widens ?_
    intro j hj
    split <;> trivial
  -- The accumulator holds the address of the variable or its member.
  have hmember : ∀ {a}, addressOf ctx mem s.value (withMember front v.memberOffset) = some a →
      ∃ b, v.dwarfLocation ctx mem = some (.memory b) ∧ a = wrap (b + v.memberOffset) := by
    intro a ha
    rw [withMember, addressOf_append] at ha
    obtain ⟨b, hb, ha⟩ := Option.bind_eq_some_iff.mp ha
    have hloc : v.dwarfLocation ctx mem = some (.memory b) := by rw [hp.location s.value, hb]; rfl
    refine ⟨b, hloc, ?_⟩
    split at ha
    · exact (Option.some.inj ha).symm
    · next hoff =>
      have hoff : v.memberOffset = 0 := not_not.mp hoff
      obtain rfl := Option.some.inj ha
      have h0 : addressOf ctx mem 0 front = some b := by
        have := (hp.location 0).symm.trans hloc
        simpa using this
      rw [hoff, wrap_self (addressOf_lt (fun op hop => haddressing op (List.mem_append_left _ hop))
        (by norm_num) h0)]
  by_cases hk : v.kind = .cString
  · rw [hops, if_pos hk] at hflags ⊢
    have haddressing' : ∀ op ∈ withMember front v.memberOffset ++ [.dereference 8], op.addressing = true := by
      intro op hop
      rcases List.mem_append.mp hop with hop | hop
      · exact haddressing op hop
      · obtain rfl := List.mem_singleton.mp hop
        rfl
    have hwidens' : WidensFrom 0 (withMember front v.memberOffset ++ [.dereference 8]) :=
      widensFrom_append (by omega) haddressing hwidens fun j hj => ⟨hj, trivial⟩
    obtain ⟨n, bytes, hn, hread, hwidth, hvalues⟩ :=
      locationRun_fetch hslot haddressing' hwidens' hclean hflags
    rw [addressOf_append] at hn
    obtain ⟨a, ha, hn⟩ := Option.bind_eq_some_iff.mp hn
    obtain ⟨pointerBytes, hpointer, hn⟩ := Option.bind_eq_some_iff.mp hn
    obtain rfl := Option.some.inj hn
    obtain ⟨b, hloc, rfl⟩ := hmember ha
    refine ⟨Or.inr ⟨hk, hwidth⟩, ?_⟩
    have hle : v.scalarWidth ≤ 8 := by
      have hmem := v.scalarWidth_mem
      simp only [List.mem_cons, List.not_mem_nil, or_false] at hmem
      omega
    have hword : word pointerBytes v.scalarWidth = word pointerBytes 8 := by
      rw [← word_mod hle, Nat.mod_eq_of_lt (pointer hk b pointerBytes hloc hpointer)]
    rw [dwarfValue_memory hloc (Memory.read_le hle hpointer), hword, hk, hwidth]
    exact dwarfNode_text hread hvalues
  · rw [hops, if_neg hk] at hflags ⊢
    obtain ⟨a, bytes, ha, hread, hwidth, hvalues⟩ :=
      locationRun_fetch hslot haddressing hwidens hclean hflags
    obtain ⟨b, hloc, rfl⟩ := hmember ha
    rw [hwidth]
    refine ⟨Or.inl v.scalarWidth_mem, ?_⟩
    rw [dwarfValue_memory hloc hread, dwarfNode_scalar hk v.scalarWidth_mem, nodeOf_congr hvalues]

/-! ### Expressions that start from nothing -/

/-- The first operation on the zero the accumulator starts with is refused. -/
def LocationOperation.fails : LocationOperation → Prop
  | .dereference _ => True
  | .addConstant c => ¬ startsAddress c
  | _ => False

theorem addUserOffset_zero {c : ℤ} (h : ¬ startsAddress c) : (addUserOffset 0 c).2 = false := by
  unfold startsAddress at h
  unfold addUserOffset
  split
  · dsimp only
    split
    · rfl
    · exact decide_eq_false (by omega)
  · have hlt : 0 < (-c).toNat := by omega
    dsimp only
    rw [if_pos hlt]

theorem flags_of_fails {op : LocationOperation} (hop : op.fails) (hslot : slot < MAX_CAPTURE_SLOTS) (hzero : s.value = 0) :
    (captureStep ctx mem s (op.toCaptureOp slot)).event.flags ≠ 0 := by
  have hlt : ¬ (op.toCaptureOp slot).destinationSlot ≥ MAX_CAPTURE_SLOTS := by
    rw [LocationOperation.destinationSlot_toCaptureOp]
    omega
  unfold captureStep
  rw [if_neg hlt]
  cases op with
  | dereference m =>
    have hread : validUserRead s.value m = false := by
      rw [hzero]
      rfl
    have hstep : ∀ t : CaptureState, (if validUserRead s.value m = false then s.flag 8 else t).event.flags ≠ 0 := by
      intro t
      rw [if_pos hread]
      exact CaptureState.flag_flags_ne (by decide)
    exact hstep _
  | addConstant c =>
    have hsum : (addUserOffset s.value c).2 = false := by
      rw [hzero]
      exact addUserOffset_zero hop
    have hstep : (if (addUserOffset s.value c).2 then { s with value := (addUserOffset s.value c).1 }
        else { s with value := (addUserOffset s.value c).1 }.flag 8).event.flags ≠ 0 := by
      rw [hsum]
      exact CaptureState.flag_flags_ne (by decide)
    exact hstep
  | register _ | frameOffset _ | stackValue | piece _ | unsupported _ => cases hop

theorem decodeOperation_ne_nil {op : Operation} {first : List LocationOperation} (h : decodeOperation op = .ok first) :
    first ≠ [] := by
  cases op with
  | register _ | registerOffset _ _ | frameOffset _ | deref _ | stackValue =>
    cases h
    exact List.cons_ne_nil _ _
  | plusConstant c =>
    obtain ⟨_, -, h⟩ := bind_eq_ok.mp h
    cases h
    exact List.cons_ne_nil _ _
  | piece n =>
    simp only [decodeOperation] at h
    split_ifs at h
    cases h
    exact List.cons_ne_nil _ _
  | callFrameCFA | other _ | unread _ => cases h

theorem splice_ne_nil {saw : Bool} {operations spliced : List LocationOperation} (hbase : registerBased base = true)
    (h : spliceFrameBase base saw operations = .ok spliced) (hne : operations ≠ []) : spliced ≠ [] := by
  obtain ⟨r, rest, rfl, -⟩ := registerBased_eq_true hbase
  cases operations with
  | nil => exact absurd rfl hne
  | cons op operations =>
    cases op with
    | frameOffset offset =>
      cases saw with
      | true => cases h
      | false =>
        obtain ⟨_, -, h⟩ := bind_eq_ok.mp h
        cases h
        exact List.cons_ne_nil _ _
    | register _ | addConstant _ | dereference _ | stackValue | piece _ | unsupported _ =>
      cases saw <;>
      · obtain ⟨_, -, h⟩ := bind_eq_ok.mp h
        cases h
        exact List.cons_ne_nil _ _

/-- What an expression begins with its location does. -/
theorem located_cons {frameBase : Option (List LocationOperation)} {op : Operation} {x : LocationOperation}
    (hop : decodeOperation op = .ok [x]) (hx : x.isFrameOffset = false)
    (h : locationOperations frameBase (op :: expression) = .ok located) :
    ∃ l, located = x :: l ∧ (expression = [] ↔ l = []) := by
  obtain ⟨operations, hdecode, h⟩ := bind_eq_ok.mp h
  obtain ⟨first, hfirst, hdecode⟩ := bind_eq_ok.mp hdecode
  obtain ⟨others, hothers, hdecode⟩ := bind_eq_ok.mp hdecode
  obtain rfl := Except.ok.inj (hop.symm.trans hfirst)
  obtain rfl := Except.ok.inj hdecode
  have hempty : expression = [] ↔ others = [] := by
    cases expression with
    | nil =>
      cases hothers
      exact iff_of_true rfl rfl
    | cons next rest =>
      obtain ⟨_, hnext, hothers⟩ := bind_eq_ok.mp hothers
      obtain ⟨_, -, hothers⟩ := bind_eq_ok.mp hothers
      cases hothers
      exact iff_of_false (List.cons_ne_nil _ _) fun hnil => decodeOperation_ne_nil hnext (List.append_eq_nil_iff.mp hnil).1
  split at h
  · rcases frameBase with - | base
    · cases h
    · obtain ⟨hbased, hsplice⟩ := applyFrameBase_eq_ok h
      have hkeep : spliceFrameBase base false (x :: others) =
          (spliceFrameBase base false others).bind fun l => .ok (x :: l) := by
        cases x with
        | frameOffset _ => cases hx
        | register _ | addConstant _ | dereference _ | stackValue | piece _ | unsupported _ => rfl
      obtain ⟨l, hl, hsplice⟩ := bind_eq_ok.mp (hkeep.symm.trans hsplice)
      refine ⟨l, (Except.ok.inj hsplice).symm, hempty.trans ⟨?_, fun hnil => ?_⟩⟩
      · rintro rfl
        cases hl
        rfl
      · by_contra hne
        exact splice_ne_nil hbased hl hne hnil
  · exact ⟨others, (Except.ok.inj h).symm, hempty⟩

/-- The operations of the fetch come after the first of the location, which only a fetch
alone gives way to a member. -/
theorem fetchOperations_cons {x : LocationOperation} {l : List LocationOperation} {offset : ℤ} {kind : ValueKind}
    {width : ℕ} (hx : x ≠ .stackValue) (h : l ≠ [] ∨ offset = 0 ∨ ∀ m, x ≠ .dereference m) :
    ∃ t, fetchOperations (x :: l) offset kind width = x :: t := by
  have hlast : l = [] → (x :: l).getLast? = some x := by
    rintro rfl
    rfl
  have hdrop : l ≠ [] → (x :: l).dropLast = x :: l.dropLast := List.dropLast_cons_of_ne_nil
  have hmember : offset ≠ 0 → ∃ t, addMember (x :: l) offset kind width = x :: t := by
    intro hoffset
    unfold addMember
    split
    · next m hm =>
      have hne : l ≠ [] := by
        rintro hnil
        rcases h with h | h | h
        · exact h hnil
        · exact hoffset h
        · exact h m (Option.some.inj ((hlast hnil).symm.trans hm))
      rw [hdrop hne]
      exact ⟨_, rfl⟩
    · exact ⟨_, rfl⟩
  have htext : ∃ t, addText (x :: l) = x :: t := by
    unfold addText
    split
    · exact ⟨_, rfl⟩
    · next hv =>
      rw [hdrop fun hnil => hx (Option.some.inj ((hlast hnil).symm.trans hv))]
      exact ⟨_, rfl⟩
    · exact ⟨_, rfl⟩
    · exact ⟨_, rfl⟩
  have hroot : ∃ t, addRoot (x :: l) width = x :: t := by
    unfold addRoot
    split <;> exact ⟨_, rfl⟩
  have hfetched : ∃ t, (if offset ≠ 0 then addMember (x :: l) offset kind width
      else if kind = .cString then addText (x :: l) else addRoot (x :: l) width) = x :: t := by
    split
    · next hoffset => exact hmember hoffset
    · split
      · exact htext
      · exact hroot
  obtain ⟨t, ht⟩ := hfetched
  unfold fetchOperations
  rw [ht]
  dsimp only
  split
  · exact ⟨_, rfl⟩
  · exact ⟨_, rfl⟩

/-- The plan of an expression that starts from nothing starts with what is refused. -/
theorem Variable.Unbased.starts (h : v.Unbased expression) (location : v.location = .ok expression)
    {resolved : VariablePlan} (hresolved : resolveVariable v = .ok resolved) :
    ∃ op rest, resolved.operations = op :: rest ∧ op.fails := by
  obtain ⟨frameBase, expression', located, -, hexpr, hlocated, hops, -⟩ := resolveVariable_eq_ok hresolved
  obtain rfl := Except.ok.inj (location.symm.trans hexpr)
  -- nothing is left before the member offset or the fetch
  have hbare : fetchOperations [] v.memberOffset v.kind v.width = resolved.operations → ¬ startsAddress v.memberOffset →
      ∃ op rest, resolved.operations = op :: rest ∧ op.fails := by
    intro he hoffset
    rw [← he]
    by_cases hroot : v.memberOffset = 0
    · by_cases hk : v.kind = .cString
      · exact ⟨.dereference 8, [.dereference 64], by simp [fetchOperations, addText, hroot, hk], trivial⟩
      · exact ⟨.dereference v.width, [], by simp [fetchOperations, addRoot, hroot, hk], trivial⟩
    · by_cases hk : v.kind = .cString
      · exact ⟨.addConstant v.memberOffset, _, by simp [fetchOperations, addMember, hroot, hk]; rfl, hoffset⟩
      · exact ⟨.addConstant v.memberOffset, _, by simp [fetchOperations, addMember, hroot, hk]; rfl, hoffset⟩
  cases expression with
  | nil =>
    cases hlocated
    exact hbare hops.symm h
  | cons op rest =>
    cases op with
    | deref m =>
      obtain ⟨l, rfl, hl⟩ := located_cons (x := .dereference m) rfl rfl hlocated
      by_cases hkeep : l ≠ [] ∨ v.memberOffset = 0
      · obtain ⟨t, ht⟩ : ∃ t, fetchOperations (.dereference m :: l) v.memberOffset v.kind v.width =
            .dereference m :: t :=
          fetchOperations_cons nofun (hkeep.imp_right .inl)
        exact ⟨_, t, hops.trans ht, trivial⟩
      · obtain ⟨hnil, hoffset⟩ := not_or.mp hkeep
        obtain rfl := not_not.mp hnil
        obtain rfl := hl.mpr rfl
        have halone : fetchOperations [.dereference m] v.memberOffset v.kind v.width =
            fetchOperations [] v.memberOffset v.kind v.width := by
          unfold fetchOperations
          rw [if_pos hoffset, if_pos hoffset]
          rfl
        exact hbare (halone.symm.trans hops.symm) h
    | plusConstant c =>
      obtain ⟨operations, hdecode, -⟩ := bind_eq_ok.mp hlocated
      obtain ⟨first, hfirst, -⟩ := bind_eq_ok.mp hdecode
      obtain ⟨c', hc, hfirst⟩ := bind_eq_ok.mp hfirst
      obtain rfl : (c : ℤ) = c' := by
        unfold signedConstant at hc
        split at hc
        · exact Except.ok.inj hc
        · cases hc
      have hop : decodeOperation (.plusConstant c) = .ok [.addConstant c] := by
        show (signedConstant c "constant" >>= fun value => .ok [LocationOperation.addConstant value]) = _
        rw [hc]
        rfl
      obtain ⟨l, rfl, -⟩ := located_cons hop rfl hlocated
      obtain ⟨t, ht⟩ : ∃ t, fetchOperations (.addConstant c :: l) v.memberOffset v.kind v.width =
          .addConstant c :: t :=
        fetchOperations_cons nofun (.inr (.inr fun _ => nofun))
      exact ⟨_, t, hops.trans ht, h⟩
    | register _ | registerOffset _ _ | frameOffset _ | stackValue | piece _ | callFrameCFA | other _ | unread _ => cases h

/-- **Without a value to show every hit is flagged.** -/
theorem sound_unbased (location : v.location = .ok expression) (h : v.Unbased expression) : v.Sound ctx mem := by
  refine Variable.sound_of_run fun slot resolved s hslot hresolved hzero _ hflags => ?_
  obtain ⟨op, rest, hops, hop⟩ := h.starts location hresolved
  rw [hops, locationRun, List.map_cons, captureRun_cons] at hflags
  exact absurd (captureRun_flags hflags) (flags_of_fails hop hslot hzero)

/-! ### Registers and values -/

theorem sliceOf_zero {n width : ℕ} (hw : width ∈ [1, 2, 4, 8]) : sliceOf n 0 width = some (n % 256 ^ width) := by
  simp only [List.mem_cons, List.not_mem_nil, or_false] at hw
  unfold sliceOf
  rw [if_pos ⟨le_rfl, by omega⟩]
  simp

/-- A variable whose eight bytes are left in the accumulator, extended from its width. -/
theorem sound_extended (front : List LocationOperation)
    (hplan : ∀ resolved, resolveVariable v = .ok resolved →
      resolved.operations = front ++ [if v.kind = .cString then .dereference 64 else .stackValue] ∧
        ∀ op ∈ front, op.addressing = true)
    (hwidens : WidensFrom 0 front)
    (hvalue : ∀ a n, addressOf ctx mem a front = some n → n < 2 ^ 64 ∧ Extends v.kind v.scalarWidth n ∧
      v.dwarfValue ctx mem = dwarfNode mem v.kind v.scalarWidth (n % 256 ^ v.scalarWidth)) :
    v.Sound ctx mem := by
  refine Variable.sound_of_run fun slot resolved s hslot hresolved _ hclean hflags => ?_
  obtain ⟨hops, hfront⟩ := hplan resolved hresolved
  rw [hops] at hflags ⊢
  by_cases hk : v.kind = .cString
  · rw [if_pos hk] at hflags ⊢
    obtain ⟨n, bytes, hn, hread, hwidth, hvalues⟩ := locationRun_fetch hslot hfront hwidens hclean hflags
    obtain ⟨hlt, hext, hdwarf⟩ := hvalue _ n hn
    rw [hk] at hext
    refine ⟨Or.inr ⟨hk, hwidth⟩, ?_⟩
    rw [hdwarf, hwidth, Nat.mod_eq_of_lt hext, hk]
    exact dwarfNode_text hread hvalues
  · rw [if_neg hk] at hflags ⊢
    obtain ⟨n, hn, hwidth, hvalues⟩ := locationRun_value hslot hfront hwidens hclean hflags
    obtain ⟨hlt, hext, hdwarf⟩ := hvalue _ n hn
    rw [hwidth]
    exact ⟨Or.inl (by decide), by rw [hdwarf, dwarfNode_extends hk hlt hext hvalues]⟩

theorem fetchOperations_register_root {r : ℕ} {kind : ValueKind} {width : ℕ} :
    fetchOperations [.register r] 0 kind width =
      [.register r] ++ [if kind = .cString then .dereference 64 else .stackValue] := by
  by_cases hk : kind = .cString <;> simp [fetchOperations, addText, addRoot, hk]

theorem fetchOperations_value_root {front : List LocationOperation} {kind : ValueKind} {width : ℕ} :
    fetchOperations (front ++ [.stackValue]) 0 kind width =
      front ++ [if kind = .cString then .dereference 64 else .stackValue] := by
  by_cases hk : kind = .cString <;> simp [fetchOperations, addText, addRoot, hk]

/-- **A register variable is read** when the register holds the type extended. -/
theorem sound_register {r : ℕ} (location : v.location = .ok [.register r]) (root : v.memberOffset = 0)
    (extends_ : ∀ reg, dwarfRegister r = some reg → Extends v.kind v.scalarWidth (ctx reg).toNat) :
    v.Sound ctx mem := by
  refine sound_extended [.register r] (fun resolved hresolved => ?_) trivial fun a n hn => ?_
  · obtain ⟨frameBase, expression, located, -, hexpr, hlocated, hops, -, hvalid⟩ :=
      resolveVariable_eq_ok hresolved
    obtain rfl := Except.ok.inj (location.symm.trans hexpr)
    obtain rfl : [.register r] = located := Except.ok.inj hlocated
    rw [root, fetchOperations_register_root] at hops
    refine ⟨hops, fun op hop => ?_⟩
    obtain rfl := List.mem_singleton.mp hop
    have hr := (validateLocation_eq_ok hvalid).2 (.register r) (by rw [hops]; simp)
    simp only [validateOperation] at hr
    split at hr
    · cases hr
    · exact decide_eq_true (by omega)
  · obtain ⟨reg, hreg, hn⟩ := Option.bind_eq_some_iff.mp hn
    obtain rfl := Option.some.inj hn
    refine ⟨(ctx reg).toNat_lt, extends_ reg hreg, ?_⟩
    have hloc : v.dwarfLocation ctx mem = some (.register reg) := by
      rw [Variable.dwarfLocation, location]
      simp [Except.toOption, Frame.evaluate, hreg]
    simp only [Variable.dwarfValue, hloc, Option.bind_some, VariableLocation.number, root,
      sliceOf_zero v.scalarWidth_mem]

/-- **A variable that is a value is read** when the value is the type extended. -/
theorem sound_value (location : v.location = .ok (expression ++ [.stackValue])) (chain : Chain expression)
    (frame : ∀ offset, .frameOffset offset ∈ expression → v.FrameWellFormed) (root : v.memberOffset = 0)
    (extends_ : ∀ n, v.dwarfLocation ctx mem = some (.value n) → Extends v.kind v.scalarWidth n) :
    v.Sound ctx mem := by
  intro path slot resolved planned request plan hresolved
  obtain ⟨front, hp⟩ := chain.planned frame ctx mem [.stackValue] [.stackValue] .value location
    (by rintro base saw rest end' h₁ h₂; cases h₁; cases saw <;> exact (Except.ok.inj h₂).symm)
    (fun _ _ _ => rfl) hresolved
  have hops := hp.operations
  rw [root, fetchOperations_value_root] at hops
  have hfront : ∀ op ∈ front, op.addressing = true := hp.addressing fun op hop => by rw [hops]; simp [hop]
  refine sound_extended front (fun resolved' hresolved' => ?_) hp.widens (fun a n hn => ?_)
    path slot resolved planned request plan hresolved
  · obtain rfl : resolved = resolved' := Except.ok.inj (hresolved.symm.trans hresolved')
    exact ⟨hops, hfront⟩
  · have hloc : v.dwarfLocation ctx mem = some (.value n) := by rw [hp.location a, hn]; rfl
    have h0 : addressOf ctx mem 0 front = some n := by
      have := (hp.location 0).symm.trans hloc
      simpa using this
    refine ⟨addressOf_lt hfront (by norm_num) h0, extends_ n hloc, ?_⟩
    simp only [Variable.dwarfValue, hloc, Option.bind_some, VariableLocation.number, root,
      sliceOf_zero v.scalarWidth_mem]

theorem four_mem_widths : 4 ∈ [1, 2, 4, 8] := by decide

/-- A local of four bytes at an offset from the canonical frame address. -/
def frameVariable : Variable where
  memberOffset := 0
  scalarWidth := 4
  scalarWidth_mem := four_mem_widths
  kind := .signed
  location := .ok [.frameOffset (-20)]
  frameBase := some { expression := [.callFrameCFA], cfa := .ok (.registerAndOffset 7 16) }

/-- An `int` in `eax`. -/
def eaxVariable : Variable where
  memberOffset := 0
  scalarWidth := 4
  scalarWidth_mem := four_mem_widths
  kind := .signed
  location := .ok [.register 0]
  frameBase := none

end NativeAgent
