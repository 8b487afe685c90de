/-
LiveProbe/PythonAgreement.lean

The Python evaluator against the meaning of expressions, and so against the
Node evaluator.

The numbers of the two agents are equal as rationals: an `int` result and a
rounded one differ only beyond the safe integers, where both are refused
(`compute_agrees`).  What is left are the steps of a path and the joining of
texts.  A step agrees unless it asks for the `length` of an array, indexes one by
digits of another script, or meets a redaction that only one of the agents
applies: the Node agent matches the patterns of keys against integer segments as
well, and folds case in its own way.  A text of UTF-16 units joined to another
may make one character out of two lone surrogates.
-/
import LiveProbe.PythonExpression

open JsString Binary64 Outcome Portable

namespace PythonAgent

/-! ### Reading values and nodes -/

/-- The same value in Python and in the domain of expressions. -/
inductive Same : PyValue → Value → Prop
  | none : Same .none .null
  | bool (b : Bool) : Same (.bool b) (.bool b)
  | number {n : PyNumber} {a : Double} (h : n.value = a.value) : Same (.number n) (.number a)
  | str (s : JsString) : Same (.str (codePoints s)) (.string s)
  | list (items : List Json) : Same (.list items) (.array items)
  | dict (members : List (JsString × Json)) : Same (.dict members) (.object members)

/-- A segment of a path as Python reads it. -/
def PySegment.ofSegment : PathSegment → PySegment
  | .name s => .name (codePoints s)
  | .index n => .index n

/-- The node Python reads of an expression: an integral literal may be an `int`
or a `float`. -/
inductive Reads : PyNode → ExpressionNode → Prop
  | literal {v : PyValue} {scalar : JsonScalar} (h : Same v (Value.ofScalar scalar)) :
    Reads (.literal v) (.literal scalar)
  | reference (path : List PathSegment) :
    Reads (.reference (path.map PySegment.ofSegment)) (.reference path)
  | unary (operator : UnaryOperator) {n : PyNode} {m : ExpressionNode} (h : Reads n m) :
    Reads (.unary operator n) (.unary operator m)
  | binary (operator : BinaryOperator) {n n' : PyNode} {m m' : ExpressionNode} (h : Reads n m)
    (h' : Reads n' m') : Reads (.binary operator n n') (.binary operator m m')

theorem same_ofJson (v : Json) : Same (PyValue.ofJson v) (Value.ofJson v) := by
  cases v with
  | null => exact .none
  | bool b => exact .bool b
  | num q =>
    refine .number ?_
    split
    · rename_i hden
      exact Rat.coe_int_num_of_den_eq_one hden
    · rfl
  | str s => exact .str s
  | arr items => exact .list items
  | obj members => exact .dict members

/-! ### Steps of a path -/

section

variable {unicode : Unicode}

/-- A digit of ASCII is read as one. -/
theorem digit_of_isDigit {c : UInt16} (h : isDigit c = true) :
    unicode.digit c.toNat = some (c.toNat - 0x30) := by
  simp only [isDigit, Bool.and_eq_true, decide_eq_true_eq, UInt16.le_iff_toNat_le,
    UInt16.reduceToNat] at h
  have hdigit := unicode.digit_ascii (c.toNat - 0x30) (by omega)
  rwa [Nat.add_sub_cancel' h.1] at hdigit

/-- A numeral is read as the number it denotes. -/
theorem toInt_numeral {s : JsString} (h : s.all isDigit = true) :
    toInt unicode (s.map UInt16.toNat) = digitsValue s := by
  unfold toInt digitsValue
  rw [List.foldl_map]
  refine List.foldl_ext _ _ _ fun n c hc => ?_
  rw [digit_of_isDigit (List.all_eq_true.mp h c hc)]
  rfl

theorem isdecimal_numeral {s : JsString} (hne : s ≠ []) (h : s.all isDigit = true) :
    isdecimal unicode (s.map UInt16.toNat) = true := by
  unfold isdecimal
  rw [Bool.and_eq_true, decide_eq_true_eq]
  refine ⟨fun hnil => hne (List.map_eq_nil_iff.mp hnil), ?_⟩
  rw [List.all_map]
  refine List.all_eq_true.mpr fun c hc => ?_
  show (unicode.digit c.toNat).isSome = true
  rw [digit_of_isDigit (List.all_eq_true.mp h c hc)]
  rfl

theorem sequenceIndex_decimal {segment : PathSegment} {i : ℕ} (h : segmentKey segment = decimal i) :
    sequenceIndex unicode (PySegment.ofSegment segment) = some i := by
  cases segment with
  | index n => exact congrArg some (decimal_injective h)
  | name s =>
    obtain rfl : s = decimal i := h
    obtain ⟨hne, hall, hzero⟩ := isNumeral_decimal i
    have hleading : (decimal i).map UInt16.toNat = [0x30] ∨
        ((decimal i).map UInt16.toNat).head? ≠ some 0x30 := by
      rcases hzero with heq | hhead
      · rw [heq]
        exact .inl rfl
      · refine .inr fun h => hhead ?_
        rw [List.head?_map, Option.map_eq_some_iff] at h
        obtain ⟨c, hc, hnat⟩ := h
        have hunit : c = 0x30 := by
          apply UInt16.toNat_inj.mp
          exact hnat
        rw [hc, hunit]
    show sequenceIndex unicode (.name (codePoints (decimal i))) = some i
    rw [codePoints_decimal, sequenceIndex, if_pos ⟨isdecimal_numeral hne hall, hleading⟩,
      toInt_numeral hall, digitsValue_decimal]

theorem segmentText_ofSegment (segment : PathSegment) :
    segmentText (PySegment.ofSegment segment) = codePoints (segmentKey segment) := by
  cases segment with
  | name s => rfl
  | index n => exact (codePoints_decimal n).symm

/-- Python reads an index only where the domain has the element of that index. -/
def Indexes (unicode : Unicode) (items : List Json) (segment : PathSegment) : Prop :=
  ∀ i < items.length, sequenceIndex unicode (PySegment.ofSegment segment) = some i →
    segmentKey segment = decimal i

/-- A segment leads to the same value, or to none. -/
theorem follow_ofJson {current : Json} {segment : PathSegment}
    (h : ∀ items, current = .arr items → Indexes unicode items segment) :
    follow unicode (PyValue.ofJson current) (PySegment.ofSegment segment)
      = (child current segment).map PyValue.ofJson := by
  cases current with
  | null | bool b | num q | str s => rfl
  | obj members =>
    show ownDictValue members (segmentText (PySegment.ofSegment segment)) = _
    rw [segmentText_ofSegment]
    unfold ownDictValue child Json.get?
    simp only [codePoints_injective.eq_iff, Option.map_map]
    rfl
  | arr items =>
    have hindex := h items rfl
    show ((sequenceIndex unicode (PySegment.ofSegment segment)).bind fun index =>
      if items.length ≤ index then none else items[index]?.map PyValue.ofJson) = _
    by_cases hkey : ∃ i, segmentKey segment = decimal i
    · obtain ⟨i, hi⟩ := hkey
      rw [sequenceIndex_decimal hi]
      show _ = (element items (segmentKey segment)).map PyValue.ofJson
      rw [hi, element_decimal]
      show (if items.length ≤ i then none else items[i]?.map PyValue.ofJson) = _
      split
      · rename_i hle
        rw [List.getElem?_eq_none hle]
        rfl
      · rfl
    · have hnone : ∀ i, segmentKey segment ≠ decimal i := fun i hi => hkey ⟨i, hi⟩
      show _ = (element items (segmentKey segment)).map PyValue.ofJson
      rw [element_eq_none fun i _ => hnone i]
      rcases hseq : sequenceIndex unicode (PySegment.ofSegment segment) with - | i
      · rfl
      · -- an index beyond the list is missing
        refine if_pos (not_lt.mp fun hlt => ?_)
        exact hnone i (hindex i hlt hseq)

/-! ### Results -/

variable {config : SerializerConfig} {policy : Policy}

theorem isNumber_eq {n : PyNumber} {a : Double} (h : n.value = a.value) :
    isNumber (.number n) = a.portable := by
  cases n with
  | int z => exact (Double.portable_of_intCast h.symm).symm
  | float b =>
    have hvalue : b.value = a.value := h
    show (decide (b.value.den ≠ 1) || _) = a.portable
    rw [hvalue]
    rfl

/-- The exact values redacted are the same texts. -/
def SameRedaction (config : SerializerConfig) (policy : Policy) : Prop :=
  ∀ s, codePoints s ∈ config.redactValues ↔ policy.redactsValue s = true

theorem safeResult_agrees (hredact : SameRedaction config policy) {v : PyValue} {w : Value}
    (h : Same v w) : Agree Same (safeResult config v) (allow policy w) := by
  cases h with
  | @number n a hvalue =>
    show Agree Same (if !isNumber (.number n) then .error "unsafe-number" else .ok (.number n))
      (if a.portable then .ok (.number a) else .error ())
    rw [isNumber_eq hvalue]
    cases a.portable with
    | true => exact .ok (.number hvalue)
    | false => exact .error _ _
  | str s =>
    show Agree Same
      (if codePoints s ∈ config.redactValues then .error "redacted" else .ok (.str (codePoints s)))
      (if policy.redactsValue s then .error () else .ok (.string s))
    by_cases hs : codePoints s ∈ config.redactValues
    · rw [if_pos hs, if_pos ((hredact s).mp hs)]
      exact .error _ _
    · rw [if_neg hs, if_neg fun hp => hs ((hredact s).mpr hp)]
      exact .ok (.str s)
  | none => exact .ok .none
  | bool b => exact .ok (.bool b)
  | list items => exact .ok (.list items)
  | dict members => exact .ok (.dict members)

/-- What a path must not come to. -/
def SameStep (unicode : Unicode) (config : SerializerConfig) (policy : Policy) (current : Json)
    (segment : PathSegment) : Prop :=
  redactsSegment unicode config (PySegment.ofSegment segment) = policy.redactsSegment segment ∧
    (policy.redactsSegment segment = false →
      ∀ items, current = .arr items → Indexes unicode items segment)

theorem resolvePath_agrees (hredact : SameRedaction config policy) {path : List PathSegment}
    {current : Json} (h : AlongPath policy (SameStep unicode config policy) path current) :
    Agree Same
      (resolvePath unicode config (path.map PySegment.ofSegment) (PyValue.ofJson current))
      (resolve policy path current) := by
  induction path generalizing current with
  | nil => exact safeResult_agrees hredact (same_ofJson current)
  | cons segment path ih =>
    obtain ⟨⟨hsame, hindex⟩, hrest⟩ := h
    rw [List.map_cons, resolvePath, resolve, hsame]
    rcases hred : policy.redactsSegment segment with - | -
    · rw [if_neg Bool.false_ne_true, if_neg Bool.false_ne_true, follow_ofJson (hindex hred)]
      rcases hchild : child current segment with - | next
      · exact .error _ _
      · exact ih (hrest hred next hchild)
    · rw [if_pos rfl, if_pos rfl]
      exact .error _ _

/-! ### Arithmetic -/

/-- Results of equal values are refused or kept together. -/
theorem finiteResult_agrees {o : Option PyNumber} {p : Option Double}
    (h : o.map PyNumber.value = p.map Double.value) :
    Agree Same (finiteResult o) (finite policy p) := by
  rcases o with - | n
  · rcases p with - | a
    · exact .error _ _
    · cases h
  · rcases p with - | a
    · cases h
    · have hvalue : n.value = a.value := Option.some.inj h
      show Agree Same
        (if !isNumber (.number n) then .error "unsafe-number" else .ok (.number n))
        (if a.portable then .ok (.number a) else .error ())
      rw [isNumber_eq hvalue]
      cases a.portable with
      | true => exact .ok (.number hvalue)
      | false => exact .error _ _

/-- A safe number is a float of its value. -/
theorem toFloat_of_isNumber {n : PyNumber} (h : isNumber (.number n) = true) :
    ∃ a, n.toFloat = some a ∧ a.value = n.value := by
  cases n with
  | float a => exact ⟨a, rfl, rfl⟩
  | int z =>
    have hsafe : z.natAbs ≤ maxSafe := of_decide_eq_true h
    refine ⟨Double.ofRat false z, ?_, rfl⟩
    show (Binary64.round (z : ℚ)).map (Double.ofRat false) = _
    rw [round_intCast hsafe]
    rfl

/-- An exact result and a rounded one are refused together, or are the same. -/
theorem finiteResult_int_agrees (zero : Bool) (z : ℤ) :
    Agree Same (finiteResult (some (.int z))) (finite policy (Double.rounded zero z)) := by
  rw [← finite_filter, Double.rounded_intCast]
  split
  · exact finiteResult_agrees rfl
  · rename_i hz
    show Agree Same (if !decide (z.natAbs ≤ maxSafe) then .error "unsafe-number" else _) _
    rw [decide_eq_false hz]
    exact .error _ _

theorem map_value_float (o : Option Double) :
    (o.bind fun c => some (PyNumber.float c)).map PyNumber.value = o.map Double.value := by
  cases o with
  | none => rfl
  | some c => rfl

/-- **Python's integers and the other agents' doubles compute alike.** -/
theorem compute_agrees {exact : ℤ → ℤ → ℤ} {rounded : Double → Double → Option Double}
    {f : ℚ → ℚ → ℚ} (hexact : ∀ z w : ℤ, ((exact z w : ℤ) : ℚ) = f z w)
    (hzero : ∀ a b, ∃ zero, rounded a b = Double.rounded zero (f a.value b.value))
    {m n : PyNumber} {a b : Double} (hm : m.value = a.value) (hn : n.value = b.value)
    (hmsafe : isNumber (.number m) = true) (hnsafe : isNumber (.number n) = true) :
    Agree Same (finiteResult (compute exact rounded m n)) (finite policy (rounded a b)) := by
  have hvalue : ∀ a b, (rounded a b).map Double.value = Binary64.round (f a.value b.value) := by
    intro a b
    obtain ⟨zero, h⟩ := hzero a b
    rw [h, Double.map_value_rounded]
  have hfloat : Agree Same
      (finiteResult (do
        let a ← m.toFloat
        let b ← n.toFloat
        return PyNumber.float (← rounded a b)))
      (finite policy (rounded a b)) := by
    obtain ⟨a', ha', hma⟩ := toFloat_of_isNumber hmsafe
    obtain ⟨b', hb', hnb⟩ := toFloat_of_isNumber hnsafe
    rw [ha', hb']
    refine finiteResult_agrees ?_
    show ((rounded a' b').bind fun c => some (PyNumber.float c)).map PyNumber.value = _
    rw [map_value_float, hvalue, hvalue, hma, hnb, hm, hn]
  cases m with
  | float _ => exact hfloat
  | int z =>
    cases n with
    | float _ => exact hfloat
    | int w =>
      obtain ⟨zero, h⟩ := hzero a b
      rw [h, ← hm, ← hn]
      show Agree Same (finiteResult (some (.int (exact z w))))
        (finite policy (Double.rounded zero (f z w)))
      rw [← hexact]
      exact finiteResult_int_agrees zero (exact z w)

theorem trueDivide_agrees {m n : PyNumber} {a b : Double} (hm : m.value = a.value)
    (hn : n.value = b.value) (hmsafe : isNumber (.number m) = true)
    (hnsafe : isNumber (.number n) = true) :
    Agree Same (finiteResult (trueDivide m n)) (finite policy (a.div b)) := by
  obtain ⟨a', ha', hma⟩ := toFloat_of_isNumber hmsafe
  obtain ⟨b', hb', hnb⟩ := toFloat_of_isNumber hnsafe
  refine finiteResult_agrees ?_
  unfold trueDivide
  rw [ha', hb']
  show ((a'.div b').bind fun c => some (PyNumber.float c)).map PyNumber.value = _
  rw [map_value_float, Double.map_value_div, Double.map_value_div, hma, hnb, hm, hn]

/-- The remainder of two integers is an integer. -/
theorem value_rem_intCast {a b : Double} {z w : ℤ} (ha : a.value = z) (hb : b.value = w) :
    ∃ k : ℤ, (a.rem b).value = k := by
  refine ⟨z - w * Double.trunc (a.value / b.value), ?_⟩
  show a.value - b.value * Double.trunc (a.value / b.value) = _
  rw [ha, hb]
  push_cast
  rfl

theorem fmod_agrees {m n : PyNumber} {a b : Double} (hm : m.value = a.value)
    (hn : n.value = b.value) (hmsafe : isNumber (.number m) = true)
    (hnsafe : isNumber (.number n) = true) :
    Agree Same (finiteResult (fmod m n)) (finite policy (some (a.rem b))) := by
  obtain ⟨a', ha', hma⟩ := toFloat_of_isNumber hmsafe
  obtain ⟨b', hb', hnb⟩ := toFloat_of_isNumber hnsafe
  have hrem : (a'.rem b').value = (a.rem b).value := by
    show a'.value - b'.value * Double.trunc (a'.value / b'.value) = _
    rw [hma, hnb, hm, hn]
    rfl
  refine finiteResult_agrees ?_
  unfold fmod
  rw [ha', hb']
  cases m with
  | float _ => exact congrArg some hrem
  | int z =>
    cases n with
    | float _ => exact congrArg some hrem
    | int w =>
      obtain ⟨k, hk⟩ := value_rem_intCast hma hnb
      show some ((Double.trunc (a'.rem b').value : ℤ) : ℚ) = _
      rw [hk, Double.trunc_intCast, ← hk, hrem]
      rfl

theorem negate_agrees (policy : Policy) {n : PyNumber} {a : Double} (h : n.value = a.value) :
    Agree Same (finiteResult (some (negateNumber n))) (finite policy (some a.neg)) := by
  refine finiteResult_agrees ?_
  cases n with
  | int z =>
    show some (((-z : ℤ) : ℚ)) = some (-a.value)
    rw [← h]
    push_cast
    rfl
  | float b =>
    show some (-b.value) = some (-a.value)
    rw [← h]
    rfl

/-! ### Operators -/

theorem numberPair_number {m n : PyNumber} (hm : isNumber (.number m) = true)
    (hn : isNumber (.number n) = true) :
    numberPair (.number m) (.number n) = some (m, n) :=
  if_pos (Bool.and_eq_true_iff.mpr ⟨hm, hn⟩)

theorem numberPair_eq_none {v w : PyValue} (h : ∀ m n, v = .number m → w = .number n → False) :
    numberPair v w = none := by
  unfold numberPair
  split
  · rename_i m n
    exact (h m n rfl rfl).elim
  · rfl

theorem isScalar_eq {v : PyValue} {x : Value} (h : Same v x) (hx : x.InDomain) :
    isScalar v = x.isScalar := by
  cases h with
  | @number n a hvalue =>
    show isNumber (.number n) = true
    rw [isNumber_eq hvalue]
    exact hx a rfl
  | none | bool _ | str _ | list _ | dict _ => rfl

theorem sameScalar_eq {v w : PyValue} {x y : Value} (hv : Same v x) (hw : Same w y)
    (hvs : isScalar v = true) (hws : isScalar w = true) : sameScalar v w = x.same y := by
  unfold sameScalar
  rw [hvs, hws]
  cases hv with
  | @number m a ha =>
    cases hw with
    | @number n b hb =>
      show decide (m.value = n.value) = decide (a.value = b.value)
      rw [ha, hb]
    | none | bool _ | str _ | list _ | dict _ => rfl
  | str s =>
    cases hw with
    | str t => exact decide_eq_decide.mpr codePoints_injective.eq_iff
    | none | bool _ | number _ | list _ | dict _ => rfl
  | none | bool _ | list _ | dict _ => cases hw <;> rfl

theorem arithmetic_agrees {operator : BinaryOperator} {m n : PyNumber} {a b : Double}
    (hm : m.value = a.value) (hn : n.value = b.value) (hmsafe : isNumber (.number m) = true)
    (hnsafe : isNumber (.number n) = true) (hdec : operator.decidedBy = none)
    (hne : operator ≠ .eq) (hne' : operator ≠ .ne) (horder : order a b operator = none) :
    Agree Same (arithmetic operator m n)
      (finite policy (Portable.arithmetic a b operator)) := by
  cases operator with
  | add =>
    show Agree Same (finiteResult (compute (· + ·) Double.add m n)) (finite policy (a.add b))
    exact compute_agrees Int.cast_add Double.add_eq_rounded hm hn hmsafe hnsafe
  | subtract =>
    show Agree Same (finiteResult (compute (· - ·) Double.sub m n)) (finite policy (a.sub b))
    exact compute_agrees Int.cast_sub Double.sub_eq_rounded hm hn hmsafe hnsafe
  | multiply =>
    show Agree Same (finiteResult (compute (· * ·) Double.mul m n)) (finite policy (a.mul b))
    exact compute_agrees Int.cast_mul Double.mul_eq_rounded hm hn hmsafe hnsafe
  | divide =>
    show Agree Same (if n.value = 0 then .error "division-by-zero" else _)
      (finite policy (if b.value = 0 then none else a.div b))
    rw [hn]
    by_cases hzero : b.value = 0
    · rw [if_pos hzero, if_pos hzero]
      exact .error _ _
    · rw [if_neg hzero, if_neg hzero]
      exact trueDivide_agrees hm hn hmsafe hnsafe
  | modulo =>
    show Agree Same (if n.value = 0 then .error "division-by-zero" else _)
      (finite policy (if b.value = 0 then none else some (a.rem b)))
    rw [hn]
    by_cases hzero : b.value = 0
    · rw [if_pos hzero, if_pos hzero]
      exact .error _ _
    · rw [if_neg hzero, if_neg hzero]
      exact fmod_agrees hm hn hmsafe hnsafe
  | eq => exact absurd rfl hne
  | ne => exact absurd rfl hne'
  | gt | gte | lt | lte => cases horder
  | and | or => cases hdec

theorem numbers_agree {operator : BinaryOperator} {m n : PyNumber} {a b : Double}
    (hm : m.value = a.value) (hn : n.value = b.value) (ha : a.portable = true)
    (hb : b.portable = true) (hdec : operator.decidedBy = none) (hne : operator ≠ .eq)
    (hne' : operator ≠ .ne) :
    Agree Same (binary config operator (.number m) (.number n))
      (onNumbers policy operator a b) := by
  have hmsafe : isNumber (.number m) = true := (isNumber_eq hm).trans ha
  have hnsafe : isNumber (.number n) = true := (isNumber_eq hn).trans hb
  rw [binary.eq_def, if_neg (not_or.mpr ⟨hne, hne'⟩), numberPair_number hmsafe hnsafe, onNumbers]
  rcases horder : order a b operator with - | c
  · rw [if_neg (by rintro (rfl | rfl | rfl | rfl) <;> cases horder)]
    split
    · rename_i hstring _
      cases hstring
    · exact arithmetic_agrees hm hn hmsafe hnsafe hdec hne hne' horder
  · cases operator with
    | gt | gte | lt | lte =>
      cases horder
      simp only [hm, hn]
      exact .ok (.bool _)
    | add | subtract | multiply | divide | modulo | eq | ne | and | or => cases horder

/-- An addition of texts does not join two lone surrogates. -/
def NoPair (operator : BinaryOperator) (a b : Value) : Prop :=
  ∀ s t, operator = .add → a = .string s → b = .string t → ¬ joins s t

theorem binary_agrees (hredact : SameRedaction config policy) {operator : BinaryOperator}
    {v w : PyValue} {a b : Value} (hv : Same v a) (hw : Same w b) (ha : a.InDomain)
    (hb : b.InDomain) (hdec : operator.decidedBy = none) (hpair : NoPair operator a b) :
    Agree Same (binary config operator v w) (apply policy operator a b) := by
  unfold apply
  split
  · rw [binary.eq_def, if_pos (.inl rfl)]
    rcases hboth : isScalar v && isScalar w with - | -
    · rw [← isScalar_eq hv ha, ← isScalar_eq hw hb, hboth]
      exact .error _ _
    · obtain ⟨hvs, hws⟩ := Bool.and_eq_true_iff.mp hboth
      rw [← isScalar_eq hv ha, ← isScalar_eq hw hb, hboth, sameScalar_eq hv hw hvs hws]
      exact .ok (.bool _)
  · rw [binary.eq_def, if_pos (.inr rfl)]
    rcases hboth : isScalar v && isScalar w with - | -
    · rw [← isScalar_eq hv ha, ← isScalar_eq hw hb, hboth]
      exact .error _ _
    · obtain ⟨hvs, hws⟩ := Bool.and_eq_true_iff.mp hboth
      rw [← isScalar_eq hv ha, ← isScalar_eq hw hb, hboth, sameScalar_eq hv hw hvs hws]
      exact .ok (.bool _)
  · rename_i hne hne'
    split
    · cases hv with
      | number hm =>
        cases hw with
        | number hn => exact numbers_agree hm hn (ha _ rfl) (hb _ rfl) hdec hne hne'
    · rename_i s t
      cases hv with
      | str _ =>
        cases hw with
        | str _ =>
          by_cases hadd : operator = .add
          · subst hadd
            show Agree Same (safeResult config (.str (codePoints s ++ codePoints t))) _
            rw [← codePoints_append (hpair s t rfl rfl rfl)]
            exact safeResult_agrees hredact (.str (s ++ t))
          · rw [if_neg hadd, binary.eq_def, if_neg (not_or.mpr ⟨hne, hne'⟩)]
            split
            · exact .error _ _
            · cases operator with
              | add => exact absurd rfl hadd
              | subtract | multiply | divide | modulo | eq | ne | gt | gte | lt | lte | and | or =>
                exact .error _ _
    · rename_i hnumbers hstrings
      have hnone : numberPair v w = none := by
        refine numberPair_eq_none ?_
        rintro m n rfl rfl
        cases hv
        cases hw
        exact hnumbers _ _ rfl rfl
      rw [binary.eq_def, if_neg (not_or.mpr ⟨hne, hne'⟩), hnone]
      split
      · exact .error _ _
      · split
        · cases hv
          cases hw
          exact (hstrings _ _ rfl rfl).elim
        · exact .error _ _

/-! ### Evaluation -/

theorem boolean_agrees {v : PyValue} {x : Value} (h : Same v x) :
    Agree Same
      (match v with
        | .bool c => .ok (.bool c)
        | _ => (.error "expected-boolean" : Except String PyValue))
      (boolean x) := by
  cases h with
  | bool c => exact .ok (.bool c)
  | none | number _ | str _ | list _ | dict _ => exact .error _ _

/-- **The Python agent evaluates what an expression means**, as long as its paths
and its additions of texts agree with the meaning. -/
theorem evaluate_value_agrees (hredact : SameRedaction config policy) {root : Json} {n : PyNode}
    {node : ExpressionNode} (hreads : Reads n node)
    (h : Throughout policy root (SameStep unicode config policy) NoPair node) :
    Agree Same (evaluate unicode config (PyValue.ofJson root) n) (value policy root node) := by
  induction hreads with
  | literal hsame => exact safeResult_agrees hredact hsame
  | reference path => exact resolvePath_agrees hredact h
  | unary operator _ ih =>
    cases operator with
    | not =>
      refine (ih h).bind ?_
      rintro v x - - hsame
      cases hsame with
      | bool b => exact .ok (.bool _)
      | none | number _ | str _ | list _ | dict _ => exact .error _ _
    | negate =>
      refine (ih h).bind ?_
      rintro v x - hx hsame
      cases hsame with
      | @number n a hvalue =>
        have hsafe : isNumber (.number n) = true :=
          (isNumber_eq hvalue).trans (value_inDomain hx a rfl)
        show Agree Same (if !isNumber (.number n) then _ else _) _
        rw [hsafe]
        exact negate_agrees policy hvalue
      | none | bool _ | str _ | list _ | dict _ => exact .error _ _
  | binary operator _ _ ihl ihr =>
    rw [evaluate, value]
    refine (ihl h.1).bind ?_
    rintro v a - ha hsame
    have hright := h.2 a ha
    rcases hdec : operator.decidedBy with - | decisive
    · rw [hdec] at hright
      rw [if_neg (by rintro (rfl | rfl) <;> cases hdec)]
      refine (ihr hright.1).bind ?_
      rintro w b - hb hsame'
      exact binary_agrees hredact hsame hsame' (value_inDomain ha) (value_inDomain hb) hdec
        (hright.2 b hb)
    · rw [hdec] at hright
      cases operator with
      | and =>
        cases hdec
        cases hsame with
        | bool b =>
          cases b with
          | false => exact .ok (.bool false)
          | true =>
            refine (ihr (hright rfl)).bind ?_
            rintro w x - - hsame'
            exact boolean_agrees hsame'
        | none | number _ | str _ | list _ | dict _ => exact .error _ _
      | or =>
        cases hdec
        cases hsame with
        | bool b =>
          cases b with
          | true => exact .ok (.bool true)
          | false =>
            refine (ihr (hright rfl)).bind ?_
            rintro w x - - hsame'
            exact boolean_agrees hsame'
        | none | number _ | str _ | list _ | dict _ => exact .error _ _
      | add | subtract | multiply | divide | modulo | eq | ne | gt | gte | lt | lte => cases hdec

/-! ### The two agents -/

/-- The exact values of a configuration are the same texts in both agents. -/
theorem fromMapping_sameRedaction {lower : JsString → JsString}
    {redactKeys redactValues : List JsString}
    (h : SerializerConfig.fromMapping unicode (redactKeys.map codePoints)
      (redactValues.map codePoints) = .ok config) :
    SameRedaction config (NodeAgent.configuredPolicy lower redactKeys redactValues) := by
  obtain ⟨keys, -, hconfig⟩ := bind_eq_ok.mp h
  cases hconfig
  intro s
  show codePoints s ∈ (redactValues.map codePoints).eraseDups ↔
    decide (s ∈ redactValues.eraseDups) = true
  rw [List.mem_eraseDups, decide_eq_true_eq, List.mem_eraseDups,
    List.mem_map_of_injective codePoints_injective]

/-- No step that only one of the agents takes. -/
def CommonStep (lower : JsString → JsString) (unicode : Unicode)
    (redactKeys redactValues : List JsString) (config : SerializerConfig) (current : Json)
    (segment : PathSegment) : Prop :=
  NodeAgent.LengthFree (NodeAgent.configuredPolicy lower redactKeys redactValues) current segment ∧
    SameStep unicode config (NodeAgent.configuredPolicy lower redactKeys redactValues) current
      segment

/-- **Python and Node agree on an expression**, as long as its evaluation comes to
no step of a path and no addition of texts that they take differently. -/
theorem evaluateExpression_agrees (lower : JsString → JsString) (unicode : Unicode)
    (redactKeys redactValues : List JsString) {config : SerializerConfig}
    (hconfig : SerializerConfig.fromMapping unicode (redactKeys.map codePoints)
      (redactValues.map codePoints) = .ok config)
    (expression : PyExpression) (expression' : CompiledExpression)
    (hreads : Reads expression.ast expression'.ast) (root : Json)
    (h : Throughout (NodeAgent.configuredPolicy lower redactKeys redactValues) root
      (CommonStep lower unicode redactKeys redactValues config) NoPair expression'.ast) :
    Agree Same (evaluateExpression unicode expression root config)
      (NodeAgent.evaluateExpression expression' root
        (NodeAgent.expressionPolicy lower
          (NodeAgent.normalizeSerializerConfig lower redactKeys redactValues))) := by
  have hpython := evaluate_value_agrees (fromMapping_sameRedaction hconfig) hreads
    (h.mono (fun _ _ hstep => hstep.2) fun _ _ _ hpair => hpair)
  have hnode := NodeAgent.evaluateNode_agrees
    (h.mono (fun _ _ hstep => hstep.1) fun _ _ _ _ => trivial)
  exact hpython.through hnode fun _ _ _ hsame heq => heq ▸ hsame

end

/-! ### A path to an item, and one to a length -/

/-- The tables of an interpreter on ASCII. -/
def asciiUnicode : Unicode where
  casefold s := s.map fun c => if 0x41 ≤ c ∧ c ≤ 0x5A then c + 0x20 else c
  digit c := if 0x30 ≤ c ∧ c ≤ 0x39 then some (c - 0x30) else none
  digit_ascii := asciiDigit

/-- The configuration without patterns and values of its own. -/
def defaultConfig : SerializerConfig where
  redactKeys := defaultRedactKeys
  redactValues := []

theorem fromMapping_nil : SerializerConfig.fromMapping asciiUnicode [] [] = .ok defaultConfig := by
  decide

/-- `{ items: [7] }` -/
def itemsRoot : Json := .obj [(js "items", .arr [.num 7])]

def itemPath : List PathSegment := [.name (js "items"), .index 0]

def lengthPath : List PathSegment := [.name (js "items"), .name (js "length")]

/-- Both agents evaluate `items[0]`, to the same number. -/
theorem item_agrees :
    Agree Same
      (evaluateExpression asciiUnicode
        ⟨codePoints (js "items[0]"), .reference (itemPath.map PySegment.ofSegment)⟩ itemsRoot
        defaultConfig)
      (NodeAgent.evaluateExpression ⟨js "items[0]", .reference itemPath⟩ itemsRoot
        (NodeAgent.expressionPolicy toLowerCase
          (NodeAgent.normalizeSerializerConfig toLowerCase [] []))) := by
  refine evaluateExpression_agrees toLowerCase asciiUnicode [] [] fromMapping_nil _ _
    (.reference itemPath) itemsRoot ⟨⟨?_, ?_, ?_⟩, ?_⟩
  · rintro - items ⟨⟩
  · decide
  · rintro - items ⟨⟩
  · rintro - next hnext
    obtain rfl : Json.arr [.num 7] = next := Option.some.inj hnext
    refine ⟨⟨?_, ?_, ?_⟩, fun _ _ _ => trivial⟩
    · rintro - items -
      decide
    · decide
    · rintro - items - i - hindex
      exact congrArg decimal (Option.some.inj hindex)

/-- Both agents admit `items.length`; Node counts the items, and to Python the
list has no such member. -/
theorem length_not_agrees :
    (NodeAgent.validateNode (.reference lengthPath) 0 0).isSome ∧
      (parseNode (.reference (lengthPath.map PySegment.ofSegment)) 0 0).isSome ∧
        ¬ Agree Same
          (evaluateExpression asciiUnicode
            ⟨codePoints (js "items.length"), .reference (lengthPath.map PySegment.ofSegment)⟩
            itemsRoot defaultConfig)
          (NodeAgent.evaluateExpression ⟨js "items.length", .reference lengthPath⟩ itemsRoot
            (NodeAgent.expressionPolicy toLowerCase
              (NodeAgent.normalizeSerializerConfig toLowerCase [] []))) := by
  refine ⟨by decide, by decide, fun h => ?_⟩
  have hpython : evaluateExpression asciiUnicode
      ⟨codePoints (js "items.length"), .reference (lengthPath.map PySegment.ofSegment)⟩
      itemsRoot defaultConfig = .error "missing" := rfl
  have hnode : NodeAgent.evaluateExpression ⟨js "items.length", .reference lengthPath⟩ itemsRoot
      (NodeAgent.expressionPolicy toLowerCase
        (NodeAgent.normalizeSerializerConfig toLowerCase [] []))
        = .ok (.number (Double.ofRat false 1)) := rfl
  rw [hpython, hnode] at h
  cases h

end PythonAgent
