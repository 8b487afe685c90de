/-
LiveProbe/JvmAgreement.lean

The JVM evaluator against the meaning of expressions, and so against the Node
evaluator.

Both compute with doubles, so their numbers are the same down to the sign of a
zero.  Equality does not see that sign, but `Double.compare` does: it orders the
negative zero before the positive (`ZerosApart`).  The paths differ as those of
Python and Node do, in the `length` of an array and in the redaction of integer
segments.
-/
import LiveProbe.JvmExpression

open JsString Binary64 Outcome Portable

namespace JvmBridge

/-! ### Reading values and nodes -/

/-- The same value in Java and in the domain of expressions.  A number is the same
double, or a number out of the domain on both sides. -/
inductive Same : JvmValue → Value → Prop
  | null : Same .null .null
  | bool (b : Bool) : Same (.bool b) (.bool b)
  | number {n : JvmNumber} {a : Double}
      (h : n.doubleValue.filter Double.portable = (some a).filter Double.portable) :
    Same (.number n) (.number a)
  | string (s : JsString) : Same (.string s) (.string s)
  | list (items : List Json) : Same (.list items) (.array items)
  | map (members : List (JsString × Json)) : Same (.map members) (.object members)

/-- The node Java reads of an expression. -/
inductive Reads : JvmNode → ExpressionNode → Prop
  | literal {v : JvmValue} {scalar : JsonScalar} (h : Same v (Value.ofScalar scalar)) :
    Reads (.literal v) (.literal scalar)
  | reference (path : List PathSegment) : Reads (.reference path) (.reference path)
  | unary (operator : UnaryOperator) {n : JvmNode} {m : ExpressionNode} (h : Reads n m) :
    Reads (.unary operator n) (.unary operator m)
  | binary (operator : BinaryOperator) {n n' : JvmNode} {m m' : ExpressionNode} (h : Reads n m)
    (h' : Reads n' m') : Reads (.binary operator n n') (.binary operator m m')

theorem same_ofJson (v : Json) : Same (JvmValue.ofJson v) (Value.ofJson v) := by
  cases v with
  | null => exact .null
  | bool b => exact .bool b
  | num q =>
    refine .number ?_
    split
    · rename_i hden
      have hq : ((q.num : ℤ) : ℚ) = q := Rat.coe_int_num_of_den_eq_one hden
      show (Double.rounded false ((q.num : ℤ) : ℚ)).filter Double.portable = _
      rw [Double.rounded_intCast, Option.filter_some,
        Double.portable_of_intCast (a := Double.ofRat false q) hq.symm, hq]
      simp only [decide_eq_true_eq]
    · rfl
  | str s => exact .string s
  | arr items => exact .list items
  | obj members => exact .map members

/-! ### Numbers -/

theorem portableNumber_eq (n : JvmNumber) :
    portableNumber n = (n.doubleValue.filter Double.portable).isSome := by
  unfold portableNumber
  rcases n.doubleValue with - | a
  · rfl
  · rw [Option.filter_some]
    show a.portable = (if a.portable then some a else none).isSome
    cases a.portable with
    | true => rfl
    | false => rfl

theorem portableNumber_of_same {n : JvmNumber} {a : Double}
    (h : n.doubleValue.filter Double.portable = (some a).filter Double.portable) :
    portableNumber n = a.portable := by
  rw [portableNumber_eq, h, Option.filter_some]
  cases a.portable with
  | true => rfl
  | false => rfl

/-- A number in the domain is read as its double. -/
theorem doubleValue_of_same {n : JvmNumber} {a : Double}
    (h : n.doubleValue.filter Double.portable = (some a).filter Double.portable)
    (ha : a.portable = true) : n.doubleValue = some a := by
  rw [Option.filter_some, if_pos ha] at h
  exact (Option.filter_eq_some_iff.mp h).1

theorem same_double (a : Double) : Same (.number (.double a)) (.number a) := .number rfl

/-! ### Steps of a path -/

/-- What is read as an index is the numeral of that index. -/
theorem listIndex_eq_some {segment : PathSegment} {i : ℕ} (h : listIndex segment = some i) :
    segmentKey segment = decimal i := by
  cases segment with
  | index n => exact congrArg decimal (Option.some.inj h)
  | name s =>
    rw [listIndex] at h
    split at h
    · cases h
    · rename_i hlead
      split at h
      · cases h
      · rename_i hdigits
        split at h
        · have hnumeral : IsNumeral s := by
            refine ⟨fun hnil => hlead (.inl hnil), by simpa using hdigits, ?_⟩
            by_contra hzero
            obtain ⟨hne, hhead⟩ := not_or.mp hzero
            rw [not_not] at hhead
            rcases s with - | ⟨c, t⟩
            · cases hhead
            · rcases t with - | ⟨d, t⟩
              · exact hne (congrArg (· :: []) (Option.some.inj hhead))
              · exact hlead (.inr ⟨Nat.succ_lt_succ (Nat.succ_pos _), hhead⟩)
          exact (decimal_numeral hnumeral).symm.trans (congrArg decimal (Option.some.inj h))
        · cases h

/-- A numeral is read as its index, unless no `long` holds it. -/
theorem listIndex_decimal {segment : PathSegment} {i : ℕ} (h : segmentKey segment = decimal i) :
    listIndex segment = some i ∨ listIndex segment = none ∧ longMax < i := by
  cases segment with
  | index n => exact .inl (congrArg some (decimal_injective h))
  | name s =>
    obtain rfl : s = decimal i := h
    obtain ⟨hne, hall, hzero⟩ := isNumeral_decimal i
    have hlead : ¬ (decimal i = [] ∨ 1 < (decimal i).length ∧ (decimal i).head? = some 0x30) := by
      rintro (hnil | ⟨hlen, hhead⟩)
      · exact hne hnil
      · rcases hzero with heq | hhead'
        · rw [heq] at hlen
          exact absurd hlen (by decide)
        · exact hhead' hhead
    rw [listIndex, if_neg hlead, if_neg (by simp [hall]), digitsValue_decimal]
    split
    · exact .inl rfl
    · rename_i hlong
      exact .inr ⟨rfl, not_le.mp hlong⟩

/-- An item that is asked for has an index that a `long` holds. -/
def IndexFits (current : Json) (segment : PathSegment) : Prop :=
  ∀ items, current = .arr items → ∀ i < items.length, segmentKey segment = decimal i → i ≤ longMax

/-- A segment leads to the same value, or to none. -/
theorem follow_ofJson {current : Json} {segment : PathSegment} (h : IndexFits current segment) :
    follow (JvmValue.ofJson current) segment = (child current segment).map JvmValue.ofJson := by
  cases current with
  | null | bool b | num q | str s => rfl
  | obj members =>
    unfold child Json.get?
    rw [Option.map_map]
    rfl
  | arr items =>
    have hfits := h items rfl
    show ((listIndex segment).bind fun position =>
      if items.length ≤ position then none else items[position]?.map JvmValue.ofJson)
        = (element items (segmentKey segment)).map JvmValue.ofJson
    rcases hseq : listIndex segment with - | i
    · -- nothing is read as an index that is the numeral of an element
      rw [element_eq_none]
      · rfl
      · intro i hi hkey
        rcases listIndex_decimal hkey with hsome | ⟨-, hlong⟩
        · rw [hseq] at hsome
          cases hsome
        · exact absurd (hfits i hi hkey) (not_le.mpr hlong)
    · rw [listIndex_eq_some hseq, element_decimal]
      show (if items.length ≤ i then none else items[i]?.map JvmValue.ofJson) = _
      split
      · rename_i hle
        rw [List.getElem?_eq_none hle]
        rfl
      · rfl

section

variable {lower : JsString → JsString} {config : Config} {policy : Policy}

/-- The exact values redacted are the same texts. -/
def SameRedaction (config : Config) (policy : Policy) : Prop :=
  ∀ s, s ∈ config.redactValues ↔ policy.redactsValue s = true

theorem safeResult_agrees (hredact : SameRedaction config policy) {v : JvmValue} {w : Value}
    (h : Same v w) : Agree Same (safeResult config v) (allow policy w) := by
  cases h with
  | @number n a hvalue =>
    show Agree Same (if !portableNumber n then .error "unsafe-number" else .ok (.number n))
      (if a.portable then .ok (.number a) else .error ())
    rw [portableNumber_of_same hvalue]
    rcases a.portable with - | -
    · exact .error _ _
    · exact .ok (.number hvalue)
  | string s =>
    show Agree Same (if s ∈ config.redactValues then .error "redacted" else .ok (.string s))
      (if policy.redactsValue s then .error () else .ok (.string s))
    by_cases hs : s ∈ config.redactValues
    · rw [if_pos hs, if_pos ((hredact s).mp hs)]
      exact .error _ _
    · rw [if_neg hs, if_neg fun hp => hs ((hredact s).mpr hp)]
      exact .ok (.string s)
  | null => exact .ok .null
  | bool b => exact .ok (.bool b)
  | list items => exact .ok (.list items)
  | map members => exact .ok (.map members)

/-- What a path must not come to. -/
def SameStep (lower : JsString → JsString) (config : Config) (policy : Policy) (current : Json)
    (segment : PathSegment) : Prop :=
  redactsSegment lower config segment = policy.redactsSegment segment ∧
    (policy.redactsSegment segment = false → IndexFits current segment)

theorem resolve_agrees (hredact : SameRedaction config policy) {path : List PathSegment}
    {current : Json} (h : AlongPath policy (SameStep lower config policy) path current) :
    Agree Same (resolve lower config path (JvmValue.ofJson current))
      (Portable.resolve policy path current) := by
  induction path generalizing current with
  | nil => exact safeResult_agrees hredact (same_ofJson current)
  | cons segment path ih =>
    obtain ⟨⟨hsame, hfits⟩, hrest⟩ := h
    rw [resolve, Portable.resolve, hsame]
    rcases hred : policy.redactsSegment segment with - | -
    · rw [if_neg Bool.false_ne_true, if_neg Bool.false_ne_true, follow_ofJson (hfits hred)]
      rcases hchild : child current segment with - | next
      · exact .error _ _
      · exact ih (hrest hred next hchild)
    · rw [if_pos rfl, if_pos rfl]
      exact .error _ _

/-! ### Operators -/

theorem safeNumericResult_agrees (o : Option Double) :
    Agree Same (safeNumericResult o) (finite policy o) := by
  cases o with
  | none => exact .error _ _
  | some a =>
    show Agree Same
      (if a.portable then .ok (.number (.double a)) else .error "unsafe-number")
      (if a.portable then .ok (.number a) else .error ())
    rcases a.portable with - | -
    · exact .error _ _
    · exact .ok (same_double a)

/-- The result of an ordering operator by `Double.compare`. -/
def compareOrder (a b : Double) : BinaryOperator → Option Bool
  | .gt => some (a.compare b = .gt)
  | .gte => some (a.compare b ≠ .lt)
  | .lt => some (a.compare b = .lt)
  | .lte => some (a.compare b ≠ .gt)
  | _ => none

/-- The operator tells the two zeros apart, in this order. -/
def ZerosApart (operator : BinaryOperator) (a b : Double) : Prop :=
  a.value = 0 ∧ b.value = 0 ∧
    match operator with
    | .gt | .lte => a.negative = false ∧ b.negative = true
    | .gte | .lt => a.negative = true ∧ b.negative = false
    | _ => False

/-- **`Double.compare` orders as the values do, but for the two zeros.** -/
theorem compareOrder_eq_iff {operator : BinaryOperator} {a b : Double} :
    compareOrder a b operator = order a b operator ↔ ¬ ZerosApart operator a b := by
  by_cases hopposite : a.OppositeZeros b
  · obtain ⟨ha, hb, hne⟩ := hopposite
    have hcompare : a.compare b = if a.negative then .lt else .gt := by
      rw [Double.compare, ha, hb, if_neg (lt_irrefl _), if_neg (lt_irrefl _), if_neg hne]
    have hbneg : b.negative = !a.negative := Bool.eq_not.mpr hne.symm
    unfold compareOrder order ZerosApart
    rw [hcompare, ha, hb, hbneg]
    cases operator <;> cases a.negative <;> decide
  · have hzeros : ¬ ZerosApart operator a b := by
      rintro ⟨ha, hb, hsigns⟩
      refine hopposite ⟨ha, hb, fun heq => ?_⟩
      cases operator with
      | gt | gte | lt | lte =>
        rw [hsigns.1, hsigns.2] at heq
        cases heq
      | add | subtract | multiply | divide | modulo | eq | ne | and | or => exact hsigns
    rw [iff_true_right hzeros]
    unfold compareOrder order
    rw [Double.compare_eq_cmp hopposite]
    cases operator with
    | gt => exact congrArg some (decide_eq_decide.mpr (cmp_eq_gt_iff _ _))
    | lt => exact congrArg some (decide_eq_decide.mpr (cmp_eq_lt_iff _ _))
    | gte =>
      refine congrArg some (decide_eq_decide.mpr ?_)
      rw [Ne, cmp_eq_lt_iff, not_lt]
    | lte =>
      refine congrArg some (decide_eq_decide.mpr ?_)
      rw [Ne, cmp_eq_gt_iff, not_lt]
    | add | subtract | multiply | divide | modulo | eq | ne | and | or => rfl

theorem doublePair_number {m n : JvmNumber} {a b : Double}
    (hm : m.doubleValue.filter Double.portable = (some a).filter Double.portable)
    (hn : n.doubleValue.filter Double.portable = (some b).filter Double.portable)
    (ha : a.portable = true) (hb : b.portable = true) :
    doublePair (.number m) (.number n) = some (a, b) := by
  have hboth : (portableNumber m && portableNumber n) = true :=
    Bool.and_eq_true_iff.mpr
      ⟨(portableNumber_of_same hm).trans ha, (portableNumber_of_same hn).trans hb⟩
  show (if portableNumber m && portableNumber n then _ else _) = _
  rw [if_pos hboth, doubleValue_of_same hm ha, doubleValue_of_same hn hb]
  rfl

theorem doublePair_eq_none {v w : JvmValue} (h : ∀ m n, v = .number m → w = .number n → False) :
    doublePair v w = none := by
  unfold doublePair
  split
  · rename_i m n
    exact (h m n rfl rfl).elim
  · rfl

theorem isJsonScalar_eq {v : JvmValue} {x : Value} (h : Same v x) (hx : x.InDomain) :
    isJsonScalar v = x.isScalar := by
  cases h with
  | @number n a hvalue => exact (portableNumber_of_same hvalue).trans (hx a rfl)
  | null | bool _ | string _ | list _ | map _ => rfl

theorem scalarEquals_eq {v w : JvmValue} {x y : Value} (hv : Same v x) (hw : Same w y)
    (hx : x.InDomain) (hy : y.InDomain) : scalarEquals v w = x.same y := by
  cases hv with
  | @number m a ha =>
    cases hw with
    | @number n b hb =>
      have hma := hx a rfl
      have hnb := hy b rfl
      show (portableNumber m && portableNumber n && _) = decide (a.value = b.value)
      rw [portableNumber_of_same ha, portableNumber_of_same hb, hma, hnb,
        doubleValue_of_same ha hma, doubleValue_of_same hb hnb]
      rfl
    | null | bool _ | string _ | list _ | map _ => rfl
  | null | bool _ | string _ | list _ | map _ => cases hw <;> rfl

theorem arithmetic_agrees {operator : BinaryOperator} (a b : Double) :
    Agree Same (arithmetic operator a b) (finite policy (Portable.arithmetic a b operator)) := by
  cases operator with
  | add => exact safeNumericResult_agrees (a.add b)
  | subtract => exact safeNumericResult_agrees (a.sub b)
  | multiply => exact safeNumericResult_agrees (a.mul b)
  | divide =>
    show Agree Same (if b.value = 0 then .error "division-by-zero" else _)
      (finite policy (if b.value = 0 then none else a.div b))
    by_cases hzero : b.value = 0
    · rw [if_pos hzero, if_pos hzero]
      exact .error _ _
    · rw [if_neg hzero, if_neg hzero]
      exact safeNumericResult_agrees (a.div b)
  | modulo =>
    show Agree Same (if b.value = 0 then .error "division-by-zero" else _)
      (finite policy (if b.value = 0 then none else some (a.rem b)))
    by_cases hzero : b.value = 0
    · rw [if_pos hzero, if_pos hzero]
      exact .error _ _
    · rw [if_neg hzero, if_neg hzero]
      exact safeNumericResult_agrees (some (a.rem b))
  | eq | ne | gt | gte | lt | lte | and | or => exact .error _ _

theorem numbers_agree {operator : BinaryOperator} {m n : JvmNumber} {a b : Double}
    (hpair : doublePair (.number m) (.number n) = some (a, b)) (hne : operator ≠ .eq)
    (hne' : operator ≠ .ne) (hzeros : ¬ ZerosApart operator a b) :
    Agree Same (binary config operator (.number m) (.number n))
      (onNumbers policy operator a b) := by
  have hcompare := compareOrder_eq_iff.mpr hzeros
  rw [binary.eq_def, if_neg (not_or.mpr ⟨hne, hne'⟩), hpair, onNumbers]
  rcases horder : order a b operator with - | c
  · rw [if_neg (by rintro (rfl | rfl | rfl | rfl) <;> cases horder)]
    split
    · rename_i hstring _
      cases hstring
    · exact arithmetic_agrees a b
  · rw [horder] at hcompare
    cases operator with
    | gt | gte | lt | lte =>
      cases hcompare
      exact .ok (.bool _)
    | add | subtract | multiply | divide | modulo | eq | ne | and | or => cases horder

/-- No comparison tells the two zeros apart. -/
def NoZerosApart (operator : BinaryOperator) (a b : Value) : Prop :=
  ∀ x y, a = .number x → b = .number y → ¬ ZerosApart operator x y

theorem binary_agrees (hredact : SameRedaction config policy) {operator : BinaryOperator}
    {v w : JvmValue} {a b : Value} (hv : Same v a) (hw : Same w b) (ha : a.InDomain)
    (hb : b.InDomain) (hzeros : NoZerosApart operator a b) :
    Agree Same (binary config operator v w) (apply policy operator a b) := by
  unfold apply
  split
  · rw [binary.eq_def, if_pos (.inl rfl), isJsonScalar_eq hv ha, isJsonScalar_eq hw hb,
      scalarEquals_eq hv hw ha hb]
    rcases a.isScalar with - | -
    · exact .error _ _
    · rcases b.isScalar with - | -
      · exact .error _ _
      · exact .ok (.bool _)
  · rw [binary.eq_def, if_pos (.inr rfl), isJsonScalar_eq hv ha, isJsonScalar_eq hw hb,
      scalarEquals_eq hv hw ha hb]
    rcases a.isScalar with - | -
    · exact .error _ _
    · rcases b.isScalar with - | -
      · exact .error _ _
      · exact .ok (.bool _)
  · rename_i hne hne'
    split
    · cases hv with
      | number hm =>
        cases hw with
        | number hn =>
          exact numbers_agree (doublePair_number hm hn (ha _ rfl) (hb _ rfl)) hne hne'
            (hzeros _ _ rfl rfl)
    · rename_i s t
      cases hv
      cases hw
      by_cases hadd : operator = .add
      · subst hadd
        exact safeResult_agrees hredact (.string (s ++ t))
      · rw [if_neg hadd, binary.eq_def, if_neg (not_or.mpr ⟨hne, hne'⟩)]
        split
        · exact .error _ _
        · cases operator with
          | add => exact absurd rfl hadd
          | subtract | multiply | divide | modulo | eq | ne | gt | gte | lt | lte | and | or =>
            exact .error _ _
    · rename_i hnumbers hstrings
      have hnone : doublePair v w = none := by
        refine doublePair_eq_none ?_
        rintro m n rfl rfl
        cases hv
        cases hw
        exact hnumbers _ _ rfl rfl
      rw [binary.eq_def, if_neg (not_or.mpr ⟨hne, hne'⟩), hnone]
      split
      · exact .error _ _
      · split
        · cases hv
          cases hw
          exact (hstrings _ _ rfl rfl).elim
        · exact .error _ _

/-! ### Evaluation -/

theorem boolean_agrees {v : JvmValue} {x : Value} (h : Same v x) :
    Agree Same
      (match v with
        | .bool c => .ok (.bool c)
        | _ => (.error "expected-boolean" : Except String JvmValue))
      (boolean x) := by
  cases h with
  | bool c => exact .ok (.bool c)
  | null | number _ | string _ | list _ | map _ => exact .error _ _

/-- **The JVM bridge evaluates what an expression means**, as long as its paths and
its comparisons agree with the meaning. -/
theorem evaluateNode_agrees (hredact : SameRedaction config policy) {root : Json} {n : JvmNode}
    {node : ExpressionNode} (hreads : Reads n node)
    (h : Throughout policy root (SameStep lower config policy) NoZerosApart node) :
    Agree Same (evaluateNode lower config (JvmValue.ofJson root) n) (value policy root node) := by
  induction hreads with
  | literal hsame => exact safeResult_agrees hredact hsame
  | reference path => exact resolve_agrees hredact h
  | unary operator _ ih =>
    cases operator with
    | not =>
      refine (ih h).bind ?_
      rintro v x - - hsame
      cases hsame with
      | bool b => exact .ok (.bool _)
      | null | number _ | string _ | list _ | map _ => exact .error _ _
    | negate =>
      refine (ih h).bind ?_
      rintro v x - hx hsame
      cases hsame with
      | @number n a hvalue =>
        show Agree Same (safeNumericResult (n.doubleValue.map Double.neg)) _
        rw [doubleValue_of_same hvalue (value_inDomain hx a rfl)]
        exact safeNumericResult_agrees (some a.neg)
      | null | bool _ | string _ | list _ | map _ => exact .error _ _
  | binary operator _ _ ihl ihr =>
    rw [evaluateNode, value]
    refine (ihl h.1).bind ?_
    rintro v a - ha hsame
    have hright := h.2 a ha
    rcases hdec : operator.decidedBy with - | decisive
    · rw [hdec] at hright
      rw [if_neg (by rintro (rfl | rfl) <;> cases hdec)]
      refine (ihr hright.1).bind ?_
      rintro w b - hb hsame'
      exact binary_agrees hredact hsame hsame' (value_inDomain ha) (value_inDomain hb)
        (hright.2 b hb)
    · rw [hdec] at hright
      cases operator with
      | and =>
        cases hdec
        cases hsame with
        | bool b =>
          cases b with
          | false => exact .ok (.bool false)
          | true =>
            refine (ihr (hright rfl)).bind ?_
            rintro w x - - hsame'
            exact boolean_agrees hsame'
        | null | number _ | string _ | list _ | map _ => exact .error _ _
      | or =>
        cases hdec
        cases hsame with
        | bool b =>
          cases b with
          | true => exact .ok (.bool true)
          | false =>
            refine (ihr (hright rfl)).bind ?_
            rintro w x - - hsame'
            exact boolean_agrees hsame'
        | null | number _ | string _ | list _ | map _ => exact .error _ _
      | add | subtract | multiply | divide | modulo | eq | ne | gt | gte | lt | lte => cases hdec

/-! ### The two agents -/

/-- The exact values of a configuration are the same texts in both agents. -/
theorem new_sameRedaction (lower lower' : JsString → JsString)
    (redactKeys redactValues : List JsString) :
    SameRedaction (Config.new lower' redactKeys redactValues)
      (NodeAgent.configuredPolicy lower redactKeys redactValues) := by
  intro s
  show s ∈ redactValues.eraseDups ↔ decide (s ∈ redactValues.eraseDups) = true
  rw [decide_eq_true_eq]

/-- No step that only one of the agents takes. -/
def CommonStep (lower lower' : JsString → JsString) (redactKeys redactValues : List JsString)
    (current : Json) (segment : PathSegment) : Prop :=
  NodeAgent.LengthFree (NodeAgent.configuredPolicy lower redactKeys redactValues) current segment ∧
    SameStep lower' (Config.new lower' redactKeys redactValues)
      (NodeAgent.configuredPolicy lower redactKeys redactValues) current segment

/-- **The JVM bridge and Node agree on an expression**, as long as its evaluation
comes to no step of a path and no comparison of zeros that they take
differently. -/
theorem evaluate_agrees (lower lower' : JsString → JsString)
    (redactKeys redactValues : List JsString) (expression : Compiled)
    (expression' : CompiledExpression) (hreads : Reads expression.ast expression'.ast)
    (root : Json)
    (h : Throughout (NodeAgent.configuredPolicy lower redactKeys redactValues) root
      (CommonStep lower lower' redactKeys redactValues) NoZerosApart expression'.ast) :
    Agree Same
      (evaluate lower' expression root (Config.new lower' redactKeys redactValues))
      (NodeAgent.evaluateExpression expression' root
        (NodeAgent.expressionPolicy lower
          (NodeAgent.normalizeSerializerConfig lower redactKeys redactValues))) := by
  have hjvm := evaluateNode_agrees (new_sameRedaction lower lower' redactKeys redactValues) hreads
    (h.mono (fun _ _ hstep => hstep.2) fun _ _ _ hzeros => hzeros)
  have hnode := NodeAgent.evaluateNode_agrees
    (h.mono (fun _ _ hstep => hstep.1) fun _ _ _ _ => trivial)
  exact hjvm.through hnode fun _ _ _ hsame heq => heq ▸ hsame

end

/-! ### Two comparisons with a negated number -/

/-- `{ a: n }` -/
def numberRoot (n : ℤ) : Json := .obj [(js "a", .num n)]

/-- `-a < a` -/
def belowOpposite : ExpressionNode :=
  .binary .lt (.unary .negate (.reference [.name (js "a")])) (.reference [.name (js "a")])

def belowOppositeJvm : JvmNode :=
  .binary .lt (.unary .negate (.reference [.name (js "a")])) (.reference [.name (js "a")])

theorem reads_belowOpposite : Reads belowOppositeJvm belowOpposite :=
  .binary .lt (.unary .negate (.reference _)) (.reference _)

/-- The variable is no array and its name is not redacted. -/
theorem commonStep_a (n : ℤ) :
    CommonStep toLowerCase toLowerCase [] [] (numberRoot n) (.name (js "a")) := by
  refine ⟨?_, ?_, ?_⟩
  · rintro - items ⟨⟩
  · decide
  · rintro - items ⟨⟩

/-- Both agents find `-5 < 5`. -/
theorem belowOpposite_agrees :
    Agree Same
      (evaluate toLowerCase ⟨js "-a < a", belowOppositeJvm⟩ (numberRoot 5)
        (Config.new toLowerCase [] []))
      (NodeAgent.evaluateExpression ⟨js "-a < a", belowOpposite⟩ (numberRoot 5)
        (NodeAgent.expressionPolicy toLowerCase
          (NodeAgent.normalizeSerializerConfig toLowerCase [] []))) := by
  refine evaluate_agrees toLowerCase toLowerCase [] [] _ _ reads_belowOpposite (numberRoot 5) ?_
  refine ⟨⟨commonStep_a 5, fun _ _ _ => trivial⟩, fun v hv => ?_⟩
  refine ⟨⟨commonStep_a 5, fun _ _ _ => trivial⟩, fun w hw x y hx hy hzeros => ?_⟩
  obtain rfl : Value.number (Double.ofRat false (5 : ℤ)) = w := Except.ok.inj hw
  cases hy
  exact absurd hzeros.2.1 (by decide)

theorem doubleValue_integer {z : ℤ} (h : z.natAbs ≤ maxSafe) :
    (JvmNumber.integer z).doubleValue = some (Double.ofRat false z) := by
  show (Binary64.round (z : ℚ)).map (Double.ofRat false) = _
  rw [round_intCast h]
  rfl

theorem portableNumber_integer {z : ℤ} (h : z.natAbs ≤ maxSafe) :
    portableNumber (.integer z) = true := by
  unfold portableNumber
  rw [doubleValue_integer h]
  exact (Double.portable_of_intCast rfl).trans (decide_eq_true h)

/-- Java orders the negated zero before the zero it was made of. -/
theorem evaluate_belowOpposite_zero :
    evaluate toLowerCase ⟨js "-a < a", belowOppositeJvm⟩ (numberRoot 0)
      (Config.new toLowerCase [] []) = .ok (.bool true) := by
  have hvalue : (JvmNumber.integer 0).doubleValue = some (Double.ofRat false 0) :=
    doubleValue_integer (Nat.zero_le _)
  have hportable : portableNumber (.integer 0) = true := portableNumber_integer (Nat.zero_le _)
  have hpath : evaluateNode toLowerCase (Config.new toLowerCase [] [])
      (JvmValue.ofJson (numberRoot 0)) (.reference [.name (js "a")])
        = .ok (.number (.integer 0)) := by
    show (if !portableNumber (.integer 0) then Except.error "unsafe-number" else _) = _
    rw [hportable]
    rfl
  have hneg : unary .negate (.number (.integer 0))
      = .ok (.number (.double (Double.ofRat true 0))) := by
    show safeNumericResult ((JvmNumber.integer 0).doubleValue.map Double.neg) = _
    rw [hvalue]
    rfl
  have hpair : doublePair (.number (.double (Double.ofRat true 0))) (.number (.integer 0))
      = some (Double.ofRat true 0, Double.ofRat false 0) := by
    show (if portableNumber (.double (Double.ofRat true 0)) && portableNumber (.integer 0)
      then (JvmNumber.integer 0).doubleValue.bind fun b => some (Double.ofRat true 0, b)
      else none) = _
    rw [hportable, hvalue]
    rfl
  have hleft : evaluateNode toLowerCase (Config.new toLowerCase [] [])
      (JvmValue.ofJson (numberRoot 0)) (.unary .negate (.reference [.name (js "a")]))
        = .ok (.number (.double (Double.ofRat true 0))) := by
    rw [evaluateNode, hpath]
    exact hneg
  unfold evaluate belowOppositeJvm
  rw [evaluateNode, hleft]
  show evaluateNode _ _ _ (.reference [.name (js "a")]) >>= binary _ .lt _ = _
  rw [hpath]
  show binary (Config.new toLowerCase [] []) .lt (.number (.double (Double.ofRat true 0)))
    (.number (.integer 0)) = _
  rw [binary.eq_def, hpair]
  rfl

/-- Both agents admit `-a < a`; of the zero it is false to Node and true to Java. -/
theorem belowOpposite_not_agrees :
    (NodeAgent.validateNode belowOpposite 0 0).isSome ∧
      (parseNode belowOppositeJvm 0 0).isSome ∧
        ¬ Agree Same
          (evaluate toLowerCase ⟨js "-a < a", belowOppositeJvm⟩ (numberRoot 0)
            (Config.new toLowerCase [] []))
          (NodeAgent.evaluateExpression ⟨js "-a < a", belowOpposite⟩ (numberRoot 0)
            (NodeAgent.expressionPolicy toLowerCase
              (NodeAgent.normalizeSerializerConfig toLowerCase [] []))) := by
  refine ⟨by decide, by decide, fun h => ?_⟩
  have hnode : NodeAgent.evaluateExpression ⟨js "-a < a", belowOpposite⟩ (numberRoot 0)
      (NodeAgent.expressionPolicy toLowerCase
        (NodeAgent.normalizeSerializerConfig toLowerCase [] [])) = .ok (.bool false) := rfl
  rw [evaluate_belowOpposite_zero, hnode] at h
  cases h
  contradiction

end JvmBridge
