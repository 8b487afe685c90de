/-
LiveProbe/Location.lean

Variables of a native program: from the location expression of DWARF to the
operations of a capture.

What is read off the debug file is a `Variable`: the operations of its location
expression as the reader hands them out, the frame base of the nearest scope
that has one, the offset of the member asked for, and the width and the kind of
its type.  `resolveVariable` turns it into location operations or refuses it;
`fetchOperations_ends` says what those operations look like at both ends.
-/
import LiveProbe.Bytes
import LiveProbe.Outcome

namespace NativeAgent

open Outcome

def MAX_CAPTURE_OPS : ℕ := 8

/-- The operations of a location expression, as far as they are told apart. -/
inductive Operation where
  | register (register : ℕ)
  | registerOffset (register : ℕ) (offset : ℤ)
  | frameOffset (offset : ℤ)
  | plusConstant (value : ℕ)
  | deref (size : ℕ)
  | stackValue
  | piece (sizeInBits : ℕ)
  | callFrameCFA
  | other (debug : String)
  /-- The reader fails here. -/
  | unread (error : String)
  deriving DecidableEq, Repr

/-- The debug text of an operation that is refused. -/
def Operation.debug : Operation → String
  | .frameOffset offset => "FrameOffset \x7b offset: " ++ toString offset ++ " \x7d"
  | .deref size =>
    "Deref \x7b base_type: UnitOffset(0), size: " ++ toString size ++ ", space: false \x7d"
  | .stackValue => "StackValue"
  | .piece sizeInBits =>
    "Piece \x7b size_in_bits: " ++ toString sizeInBits ++ ", bit_offset: None \x7d"
  | .callFrameCFA => "CallFrameCFA"
  | .other debug => debug
  | .register _ | .registerOffset _ _ | .plusConstant _ | .unread _ => ""

inductive LocationOperation where
  | register (register : ℕ)
  | frameOffset (offset : ℤ)
  | addConstant (value : ℤ)
  | dereference (bytes : ℕ)
  | stackValue
  | piece (bytes : ℕ)
  | unsupported (opcode : ℕ)
  deriving DecidableEq, Repr

inductive LocationError where
  | optimizedOut
  | unsupported (detail : String)
  | floatingPointRegister
  deriving DecidableEq, Repr

def LocationOperation.isFrameOffset : LocationOperation → Bool
  | .frameOffset _ => true
  | _ => false

/-! ### Checks -/

/-- Two hexadecimal digits, `{:02x}`. -/
def hexByte (n : ℕ) : String :=
  let digits := Nat.toDigits 16 n
  String.ofList (List.replicate (2 - digits.length) '0' ++ digits)

def validateOperation : LocationOperation → Except LocationError Unit
  | .register register => if register > 15 then .error .floatingPointRegister else .ok ()
  | .dereference bytes =>
    if bytes ∈ [1, 2, 4, 8, 64] then .ok ()
    else .error (.unsupported "dereference width must be 1, 2, 4, 8, or 64")
  | .piece bytes =>
    if bytes = 0 ∨ bytes > 8 then .error (.unsupported "piece is not bounded scalar-sized") else .ok ()
  | .unsupported opcode => .error (.unsupported ("DWARF opcode 0x" ++ hexByte opcode))
  | _ => .ok ()

def validateLocation (operations : List LocationOperation) : Except LocationError Unit :=
  if operations = [] then .error .optimizedOut
  else if operations.length > MAX_CAPTURE_OPS then .error (.unsupported "operation limit exceeded")
  else operations.forM validateOperation

/-! ### Reading expressions -/

/-- `i64::try_from` on a constant of the expression. -/
def signedConstant (value : ℕ) (detail : String) : Except LocationError ℤ :=
  if value < 2 ^ 63 then .ok value else .error (.unsupported detail)

def decodeOperation : Operation → Except LocationError (List LocationOperation)
  | .register register => .ok [.register register]
  | .registerOffset register offset => .ok [.register register, .addConstant offset]
  | .frameOffset offset => .ok [.frameOffset offset]
  | .plusConstant value => do return [.addConstant (← signedConstant value "constant")]
  | .deref size => .ok [.dereference size]
  | .stackValue => .ok [.stackValue]
  | .piece sizeInBits =>
    if sizeInBits % 8 ≠ 0 then
      .error (.unsupported ("unsupported operation " ++ (Operation.piece sizeInBits).debug))
    else if sizeInBits / 8 < 256 then .ok [.piece (sizeInBits / 8)]
    else .error (.unsupported "piece")
  | .unread error => .error (.unsupported error)
  | operation => .error (.unsupported ("unsupported operation " ++ operation.debug))

def decodeExpression : List Operation → Except LocationError (List LocationOperation)
  | [] => .ok []
  | operation :: rest => do
    let first ← decodeOperation operation
    let others ← decodeExpression rest
    return first ++ others

/-! ### Frame bases -/

/-- The rule of the unwind tables for the canonical frame address. -/
inductive CfaRule where
  | registerAndOffset (register : ℕ) (offset : ℤ)
  | expression
  deriving DecidableEq, Repr

def cfaRuleOperations : CfaRule → Except LocationError (List LocationOperation)
  | .registerAndOffset register offset =>
    if register ≤ 15 then
      .ok (.register register :: if offset ≠ 0 then [.addConstant offset] else [])
    else .error (.unsupported ("CFA register " ++ toString register ++ " is unavailable"))
  | .expression => .error (.unsupported "expression-based CFA is unsupported")

/-- The frame base of a scope: its expression, and the rule the unwind tables
have at the address, when they have one. -/
structure FrameBase where
  expression : List Operation
  cfa : Except LocationError CfaRule

def FrameBase.decodeOperation (cfa : Except LocationError CfaRule) :
    Operation → Except LocationError (List LocationOperation)
  | .register register => .ok [.register register]
  | .registerOffset register offset =>
    .ok (.register register :: if offset ≠ 0 then [.addConstant offset] else [])
  | .callFrameCFA => do cfaRuleOperations (← cfa)
  | .plusConstant value => do return [.addConstant (← signedConstant value "frame-base constant")]
  | .unread error => .error (.unsupported error)
  | other => .error (.unsupported ("unsupported DW_AT_frame_base operation " ++ other.debug))

def FrameBase.decodeOperations (cfa : Except LocationError CfaRule) :
    List Operation → Except LocationError (List LocationOperation)
  | [] => .ok []
  | operation :: rest => do
    let first ← FrameBase.decodeOperation cfa operation
    let others ← FrameBase.decodeOperations cfa rest
    return first ++ others

/-- A register and nothing but constants after it. -/
def registerBased : List LocationOperation → Bool
  | .register _ :: rest => rest.all fun | .addConstant _ => true | _ => false
  | _ => false

def decodeFrameBaseExpression (base : FrameBase) : Except LocationError (List LocationOperation) := do
  let output ← FrameBase.decodeOperations base.cfa base.expression
  if registerBased output = false then .error (.unsupported "unsupported DW_AT_frame_base result")
  validateLocation output
  return output

def validateFrameBaseOperations (frameBase : List LocationOperation) : Except LocationError Unit := do
  if registerBased frameBase = false then
    .error (.unsupported "unsupported DW_AT_frame_base expression")
  validateLocation frameBase

/-- The operations with the frame base in the place of its only use. -/
def spliceFrameBase (frameBase : List LocationOperation) :
    Bool → List LocationOperation → Except LocationError (List LocationOperation)
  | _, [] => .ok []
  | false, .frameOffset offset :: rest => do
    let others ← spliceFrameBase frameBase true rest
    return frameBase ++ (if offset ≠ 0 then [.addConstant offset] else []) ++ others
  | true, .frameOffset _ :: _ =>
    .error (.unsupported "multiple DW_OP_fbreg operations are unsupported")
  | saw, other :: rest => do
    let others ← spliceFrameBase frameBase saw rest
    return other :: others

def applyFrameBase (operations frameBase : List LocationOperation) :
    Except LocationError (List LocationOperation) := do
  validateFrameBaseOperations frameBase
  let normalized ← spliceFrameBase frameBase false operations
  validateLocation normalized
  return normalized

/-! ### Variables -/

inductive ValueKind where
  | signed | unsigned | boolean | pointer | cString
  deriving DecidableEq, Repr

/-- What the debug file says of a watch path at an address.  `resolve_members`
gives no other width. -/
structure Variable where
  memberOffset : ℤ
  scalarWidth : ℕ
  scalarWidth_mem : scalarWidth ∈ [1, 2, 4, 8]
  kind : ValueKind
  /-- The expression that covers the address, or the reason there is none. -/
  location : Except LocationError (List Operation)
  /-- The frame base of the nearest active scope that has one. -/
  frameBase : Option FrameBase

structure VariablePlan where
  operations : List LocationOperation
  byteWidth : ℕ
  kind : ValueKind
  deriving DecidableEq, Repr

def Variable.width (v : Variable) : ℕ := if v.kind = .cString then 64 else v.scalarWidth

/-- A member is read at its offset from the address of the root. -/
def addMember (operations : List LocationOperation) (memberOffset : ℤ) (kind : ValueKind) (width : ℕ) :
    List LocationOperation :=
  let root := match operations.getLast? with
    | some (.dereference _) => operations.dropLast
    | _ => operations
  root ++ .addConstant memberOffset ::
    if kind = .cString then [.dereference 8, .dereference 64] else [.dereference width]

/-- The text a root variable points to is read through the pointer. -/
def addText (operations : List LocationOperation) : List LocationOperation :=
  match operations.getLast? with
  | some (.register _) => operations ++ [.dereference 64]
  | some .stackValue => operations.dropLast ++ [.dereference 64]
  | some (.dereference 8) => operations ++ [.dereference 64]
  | _ => operations ++ [.dereference 8, .dereference 64]

/-- A root variable is read at its address, if its location is not a value already. -/
def addRoot (operations : List LocationOperation) (width : ℕ) : List LocationOperation :=
  match operations.getLast? with
  | some (.dereference _) | some .stackValue | some (.register _) => operations
  | _ => operations ++ [.dereference width]

/-- The operations that fetch the value, given those of the location. -/
def fetchOperations (operations : List LocationOperation) (memberOffset : ℤ) (kind : ValueKind)
    (width : ℕ) : List LocationOperation :=
  let fetched :=
    if memberOffset ≠ 0 then addMember operations memberOffset kind width
    else if kind = .cString then addText operations
    else addRoot operations width
  match fetched.getLast? with
  | some (.register _) => fetched ++ [.stackValue]
  | _ => fetched

/-- The operations of the location, with the frame base in its place. -/
def locationOperations (frameBase : Option (List LocationOperation)) (expression : List Operation) :
    Except LocationError (List LocationOperation) := do
  let operations ← decodeExpression expression
  if operations.any LocationOperation.isFrameOffset then
    match frameBase with
    | some base => applyFrameBase operations base
    | none => .error (.unsupported "DW_OP_fbreg has no supported DW_AT_frame_base")
  else return operations

/-- `resolve_variable` from the point where the debug file has been searched.
The frame base is read when the scope is entered, before the variable is met. -/
def resolveVariable (v : Variable) : Except LocationError VariablePlan := do
  let frameBase ← v.frameBase.mapM decodeFrameBaseExpression
  let expression ← v.location
  let located ← locationOperations frameBase expression
  let operations := fetchOperations located v.memberOffset v.kind v.width
  validateLocation operations
  return { operations, byteWidth := v.width, kind := v.kind }

/-! ### What a plan looks like -/

theorem forM_eq_ok {ε α : Type} {f : α → Except ε Unit} {l : List α} (h : l.forM f = .ok ()) :
    ∀ a ∈ l, f a = .ok () := by
  induction l with
  | nil => exact fun a ha => by cases ha
  | cons b l ih =>
    obtain ⟨⟨⟩, hb, h⟩ := bind_eq_ok.mp h
    intro a ha
    rcases List.mem_cons.mp ha with rfl | ha
    · exact hb
    · exact ih h a ha

theorem validateLocation_eq_ok {operations : List LocationOperation}
    (h : validateLocation operations = .ok ()) :
    operations ≠ [] ∧ ∀ op ∈ operations, validateOperation op = .ok () := by
  unfold validateLocation at h
  split at h
  · cases h
  next hne =>
  split at h
  · cases h
  · exact ⟨hne, forM_eq_ok h⟩

variable {v : Variable} {plan : VariablePlan}

/-- The parts of a resolution that succeeded. -/
theorem resolveVariable_eq_ok (h : resolveVariable v = .ok plan) :
    ∃ frameBase expression located,
      v.frameBase.mapM decodeFrameBaseExpression = .ok frameBase ∧
      v.location = .ok expression ∧
      locationOperations frameBase expression = .ok located ∧
      plan.operations = fetchOperations located v.memberOffset v.kind v.width ∧
      plan.kind = v.kind ∧ validateLocation plan.operations = .ok () := by
  obtain ⟨frameBase, hbase, h⟩ := bind_eq_ok.mp h
  obtain ⟨expression, hexpr, h⟩ := bind_eq_ok.mp h
  obtain ⟨located, hloc, h⟩ := bind_eq_ok.mp h
  obtain ⟨⟨⟩, hvalid, h⟩ := bind_eq_ok.mp h
  obtain rfl := Except.ok.inj h
  exact ⟨frameBase, expression, located, hbase, hexpr, hloc, rfl, rfl, hvalid⟩

/-- Operations that leave something in the slot. -/
def LocationOperation.stores : LocationOperation → Bool
  | .dereference _ | .stackValue => true
  | _ => false

/-- The last operation of a plan stores: it is a fetch or the value itself. -/
theorem fetchOperations_ends (operations : List LocationOperation) (memberOffset : ℤ) (kind : ValueKind)
    (width : ℕ) :
    ∃ init last, fetchOperations operations memberOffset kind width = init ++ [last] ∧
      last.stores = true ∧
      (last = .dereference 64 → kind ≠ .cString → width ≠ 64 →
        memberOffset = 0 ∧ operations.getLast? = some (.dereference 64)) := by
  have hmember : ∃ init last, addMember operations memberOffset kind width = init ++ [last] ∧
      last.stores = true ∧ (last = .dereference 64 → kind ≠ .cString → width = 64) := by
    unfold addMember
    split
    all_goals
      by_cases hk : kind = .cString
      · rw [if_pos hk]
        exact ⟨_ ++ [.addConstant memberOffset, .dereference 8], .dereference 64, by simp; rfl, rfl,
          fun _ h => absurd hk h⟩
      · rw [if_neg hk]
        exact ⟨_ ++ [.addConstant memberOffset], .dereference width, by simp; rfl, rfl,
          fun h _ => by cases h; rfl⟩
  have htext : ∃ init, addText operations = init ++ [.dereference 64] := by
    unfold addText
    split
    · exact ⟨_, rfl⟩
    · exact ⟨_, rfl⟩
    · exact ⟨_, rfl⟩
    · exact ⟨operations ++ [.dereference 8], by simp⟩
  unfold fetchOperations
  simp only
  by_cases hm : memberOffset = 0
  · simp only [if_neg (not_not.mpr hm)]
    by_cases hk : kind = .cString
    · obtain ⟨init, ht⟩ := htext
      rw [if_pos hk, ht]
      exact ⟨init, .dereference 64, by simp, rfl, fun _ h => absurd hk h⟩
    · rw [if_neg hk]
      unfold addRoot
      have hfetch : ∀ {P : Prop}, LocationOperation.dereference width = .dereference 64 →
          kind ≠ .cString → width ≠ 64 → P :=
        fun h _ hw => absurd (LocationOperation.dereference.inj h) hw
      rcases hlast : operations.getLast? with - | last
      · exact ⟨operations, .dereference width, by simp, rfl, hfetch⟩
      obtain ⟨init, rfl⟩ := List.getLast?_eq_some_iff.mp hlast
      cases last with
      | dereference bytes => exact ⟨init, .dereference bytes, by simp, rfl, fun h _ _ => ⟨hm, by rw [h]⟩⟩
      | stackValue => exact ⟨init, .stackValue, by simp, rfl, fun h => by cases h⟩
      | register r => exact ⟨init ++ [.register r], .stackValue, by simp, rfl, fun h => by cases h⟩
      | frameOffset n => exact ⟨init ++ [.frameOffset n], .dereference width, by simp, rfl, hfetch⟩
      | addConstant n => exact ⟨init ++ [.addConstant n], .dereference width, by simp, rfl, hfetch⟩
      | piece n => exact ⟨init ++ [.piece n], .dereference width, by simp, rfl, hfetch⟩
      | unsupported n => exact ⟨init ++ [.unsupported n], .dereference width, by simp, rfl, hfetch⟩
  · obtain ⟨init, last, heq, hs, hwide⟩ := hmember
    simp only [if_pos hm, heq]
    refine ⟨init, last, ?_, hs, fun h hk hw => absurd (hwide h hk) hw⟩
    cases last <;> simp [LocationOperation.stores] at hs ⊢

/-- The first operation stays the first when it is a register. -/
theorem fetchOperations_register {operations : List LocationOperation} {r : ℕ}
    (h : operations.head? = some (.register r)) (memberOffset : ℤ) (kind : ValueKind) (width : ℕ) :
    (fetchOperations operations memberOffset kind width).head? = some (.register r) := by
  obtain ⟨rest, rfl⟩ := List.head?_eq_some_iff.mp h
  have hdrop : ∀ last, (LocationOperation.register r :: rest).getLast? = some last →
      (∀ q, last ≠ .register q) → ∃ rest', (LocationOperation.register r :: rest).dropLast
        = .register r :: rest' := by
    intro last hlast hne
    rcases rest with - | ⟨op, rest⟩
    · exact absurd (Option.some.inj hlast).symm (hne r)
    · exact ⟨_, rfl⟩
  have hmember : (addMember (.register r :: rest) memberOffset kind width).head? = some (.register r) := by
    unfold addMember
    split
    · next hlast =>
      obtain ⟨rest', hr⟩ := hdrop _ hlast fun q => by simp
      rw [hr]
      rfl
    · rfl
  have htext : (addText (.register r :: rest)).head? = some (.register r) := by
    unfold addText
    split
    · rfl
    · next hlast =>
      obtain ⟨rest', hr⟩ := hdrop _ hlast fun q => by simp
      rw [hr]
      rfl
    · rfl
    · rfl
  have hroot : (addRoot (.register r :: rest) width).head? = some (.register r) := by
    unfold addRoot
    split <;> rfl
  have hfetched : ∀ fetched : List LocationOperation, fetched.head? = some (.register r) →
      (match fetched.getLast? with
        | some (.register _) => fetched ++ [LocationOperation.stackValue]
        | _ => fetched).head? = some (.register r) := by
    intro fetched hf
    split
    · rw [List.head?_append, hf]
      rfl
    · exact hf
  apply hfetched
  split
  · exact hmember
  · split
    · exact htext
    · exact hroot

/-! ### What a location looks like -/

variable {operations located base : List LocationOperation} {expression : List Operation} {n : ℕ}

/-- The operations one operation of an expression stands for: never none, and
a dereference at the end is one of the expression. -/
theorem decodeOperation_eq_ok {op : Operation} (h : decodeOperation op = .ok operations) :
    operations ≠ [] ∧ (operations.getLast? = some (.dereference n) ↔ op = .deref n) := by
  cases op with
  | register r => cases h; simp
  | registerOffset r offset => cases h; simp
  | frameOffset offset => cases h; simp
  | plusConstant value =>
    obtain ⟨c, -, h⟩ := bind_eq_ok.mp h
    cases h
    simp
  | deref size => cases h; simp
  | stackValue => cases h; simp
  | piece bits =>
    simp only [decodeOperation] at h
    split at h
    · cases h
    split at h
    · cases h; simp
    · cases h
  | callFrameCFA => cases h
  | other debug => cases h
  | unread error => cases h

theorem getLast?_append_right {α : Type*} {l m : List α} (hm : m ≠ []) :
    (l ++ m).getLast? = m.getLast? := by
  rw [List.getLast?_append, List.getLast?_eq_some_getLast hm, Option.some_or]

theorem decodeExpression_eq_ok (h : decodeExpression expression = .ok operations) :
    operations.getLast? = some (.dereference n) ↔ expression.getLast? = some (.deref n) := by
  induction expression generalizing operations with
  | nil => cases h; simp
  | cons op rest ih =>
    obtain ⟨first, hfirst, h⟩ := bind_eq_ok.mp h
    obtain ⟨others, hothers, h⟩ := bind_eq_ok.mp h
    obtain rfl := Except.ok.inj h
    obtain ⟨hne, hlast⟩ := decodeOperation_eq_ok (n := n) hfirst
    rcases rest with - | ⟨op', rest⟩
    · cases hothers
      simpa using hlast
    · have hne' : others ≠ [] := by
        obtain ⟨first', hfirst', h'⟩ := bind_eq_ok.mp hothers
        obtain ⟨others', -, h'⟩ := bind_eq_ok.mp h'
        obtain rfl := Except.ok.inj h'
        simp [(decodeOperation_eq_ok (n := n) hfirst').1]
      rw [getLast?_append_right hne', ih hothers, List.getLast?_cons_cons]

theorem registerBased_eq_true (h : registerBased base = true) :
    ∃ r rest, base = .register r :: rest ∧ ∀ op ∈ rest, ∃ c, op = .addConstant c := by
  rcases base with - | ⟨op, rest⟩
  · cases h
  cases op with
  | register r =>
    refine ⟨r, rest, rfl, fun op hop => ?_⟩
    have := List.all_eq_true.mp h op hop
    cases op with
    | addConstant c => exact ⟨c, rfl⟩
    | register _ | frameOffset _ | dereference _ | stackValue | piece _ | unsupported _ => simp at this
  | frameOffset _ | addConstant _ | dereference _ | stackValue | piece _ | unsupported _ => cases h

/-- A frame base ends in its register or in a constant. -/
theorem registerBased_getLast (h : registerBased base = true) (offset : ℤ) :
    (base ++ if offset ≠ 0 then [LocationOperation.addConstant offset] else []).getLast? ≠ some (.dereference n) := by
  obtain ⟨r, rest, rfl, hrest⟩ := registerBased_eq_true h
  intro hlast
  have hmem := List.mem_of_getLast? hlast
  rw [List.cons_append, List.mem_cons, List.mem_append] at hmem
  rcases hmem with hmem | hmem | hmem
  · cases hmem
  · obtain ⟨c, hc⟩ := hrest _ hmem
    cases hc
  · split at hmem <;> simp at hmem

theorem spliceFrameBase_eq_ok (hb : registerBased base = true) {saw : Bool}
    (h : spliceFrameBase base saw operations = .ok located) :
    (operations ≠ [] → located ≠ []) ∧
      (located.getLast? = some (.dereference n) ↔ operations.getLast? = some (.dereference n)) := by
  induction operations generalizing saw located with
  | nil => cases saw <;> cases h <;> simp
  | cons op rest ih =>
    have hcons : ∀ {saw} {first : List LocationOperation} {others}, first ≠ [] →
        spliceFrameBase base saw rest = .ok others →
        (first.getLast? = some (.dereference n) ↔ op = .dereference n) →
        ((first ++ others).getLast? = some (.dereference n) ↔
          (op :: rest).getLast? = some (.dereference n)) := by
      intro saw first others hne hothers hfirst
      obtain ⟨hnil, hlast⟩ := ih hothers
      rcases rest with - | ⟨op', rest⟩
      · cases saw <;> cases hothers <;> simpa using hfirst
      · rw [getLast?_append_right (hnil (by simp)), hlast, List.getLast?_cons_cons]
    have hplain : (∀ offset, op ≠ .frameOffset offset) → ∃ others,
        spliceFrameBase base saw rest = .ok others ∧ located = [op] ++ others := by
      intro hop
      cases op <;> first
        | exact absurd rfl (hop _)
        | (cases saw <;>
            (obtain ⟨others, hothers, h⟩ := bind_eq_ok.mp h
             obtain rfl := Except.ok.inj h
             exact ⟨others, hothers, rfl⟩))
    by_cases hop : ∃ offset, op = .frameOffset offset
    · obtain ⟨offset, rfl⟩ := hop
      cases saw with
      | true => cases h
      | false =>
        obtain ⟨others, hothers, h⟩ := bind_eq_ok.mp h
        obtain rfl := Except.ok.inj h
        have hne : base ++ (if offset ≠ 0 then [LocationOperation.addConstant offset] else []) ≠ [] := by
          obtain ⟨r, rest', rfl, -⟩ := registerBased_eq_true hb
          simp
        refine ⟨fun _ => List.append_ne_nil_of_left_ne_nil hne others, hcons hne hothers ?_⟩
        exact ⟨fun hl => absurd hl (registerBased_getLast hb offset), fun hl => by cases hl⟩
    · obtain ⟨others, hothers, rfl⟩ := hplain fun offset e => hop ⟨offset, e⟩
      exact ⟨fun _ => by simp, hcons (by simp) hothers (by simp)⟩

theorem applyFrameBase_eq_ok (h : applyFrameBase operations base = .ok located) :
    registerBased base = true ∧ spliceFrameBase base false operations = .ok located := by
  obtain ⟨⟨⟩, hbase, h⟩ := bind_eq_ok.mp h
  obtain ⟨normalized, hsplice, h⟩ := bind_eq_ok.mp h
  obtain ⟨⟨⟩, -, h⟩ := bind_eq_ok.mp h
  obtain rfl := Except.ok.inj h
  refine ⟨?_, hsplice⟩
  unfold validateFrameBaseOperations at hbase
  split at hbase
  · cases hbase
  · next hb => simpa using hb

/-- A location that ends in a dereference is that of an expression that does. -/
theorem locationOperations_getLast {frameBase : Option (List LocationOperation)}
    (h : locationOperations frameBase expression = .ok located) :
    located.getLast? = some (.dereference n) ↔ expression.getLast? = some (.deref n) := by
  obtain ⟨operations, hops, h⟩ := bind_eq_ok.mp h
  split at h
  · split at h
    · obtain ⟨hb, hsplice⟩ := applyFrameBase_eq_ok h
      rw [(spliceFrameBase_eq_ok hb hsplice).2, decodeExpression_eq_ok hops]
    · cases h
  · cases h
    exact decodeExpression_eq_ok hops

/-- The operations that push the value of a register, alone or with an offset. -/
def Operation.readsRegister : Operation → Bool
  | .register _ | .registerOffset _ _ | .frameOffset _ => true
  | _ => false

/-- A location that starts at a register reads it first. -/
theorem locationOperations_register {frameBase : Option (List LocationOperation)} {op : Operation}
    {rest : List Operation} (hop : op.readsRegister = true)
    (h : locationOperations frameBase (op :: rest) = .ok located) :
    ∃ r, located.head? = some (.register r) := by
  obtain ⟨operations, hops, h⟩ := bind_eq_ok.mp h
  obtain ⟨first, hfirst, hops⟩ := bind_eq_ok.mp hops
  obtain ⟨others, -, hops⟩ := bind_eq_ok.mp hops
  obtain rfl := Except.ok.inj hops
  have hregister : ∀ {r : ℕ} {tail : List LocationOperation}, first = .register r :: tail →
      ∃ r, located.head? = some (.register r) := by
    rintro r tail rfl
    split at h
    · split at h
      · obtain ⟨-, hsplice⟩ := applyFrameBase_eq_ok h
        obtain ⟨others', -, hsplice⟩ := bind_eq_ok.mp hsplice
        obtain rfl := Except.ok.inj hsplice
        exact ⟨r, rfl⟩
      · cases h
    · cases h
      exact ⟨r, rfl⟩
  cases op with
  | register r => exact hregister (Except.ok.inj hfirst).symm
  | registerOffset r offset => exact hregister (Except.ok.inj hfirst).symm
  | frameOffset offset =>
    obtain rfl := Except.ok.inj hfirst
    split at h
    · split at h
      · obtain ⟨hb, hsplice⟩ := applyFrameBase_eq_ok h
        obtain ⟨others', -, hsplice⟩ := bind_eq_ok.mp hsplice
        obtain rfl := Except.ok.inj hsplice
        obtain ⟨r, rest', rfl, -⟩ := registerBased_eq_true hb
        exact ⟨r, rfl⟩
      · cases h
    · next hany => simp [LocationOperation.isFrameOffset] at hany
  | plusConstant _ | deref _ | stackValue | piece _ | callFrameCFA | other _ | unread _ => cases hop

end NativeAgent
