/-
LiveProbe/Validators.lean

What the compiler emits, the validators of the agents admit.

The four programs count nodes and depth, and bound paths, segments and literals,
each for itself.  `Within` states the limits once: `convert` never leaves them
(`convert_within`), and each validator admits what is within them, counting the
same nodes.  Python counts the code points of a segment where the others count
units, of which there are no fewer.
-/
import LiveProbe.JvmAgreement
import LiveProbe.PythonAgreement

open JsString Portable

/-! ### The limits -/

namespace Expression

/-- A number is in the safe range. -/
def SafeScalar (scalar : JsonScalar) : Prop := ∀ q, scalar = .num q → safeNumber q = true

/-- A path of at most 64 admitted segments. -/
structure SafePath (path : List PathSegment) : Prop where
  nonempty : path ≠ []
  short : path.length ≤ maxPathSegments
  segments : ∀ segment ∈ path, NodeAgent.validPathSegment segment = true

/-- A node within the limits, after `nodes` others and at a depth; `count` is the
number of nodes after it. -/
inductive Within : ExpressionNode → ℕ → ℕ → ℕ → Prop
  | literal {scalar : JsonScalar} {nodes depth : ℕ} (hnodes : nodes + 1 ≤ maxAstNodes)
      (hdepth : depth ≤ maxAstDepth) (h : SafeScalar scalar) :
    Within (.literal scalar) nodes depth (nodes + 1)
  | reference {path : List PathSegment} {nodes depth : ℕ} (hnodes : nodes + 1 ≤ maxAstNodes)
      (hdepth : depth ≤ maxAstDepth) (h : SafePath path) :
    Within (.reference path) nodes depth (nodes + 1)
  | unary (operator : UnaryOperator) {operand : ExpressionNode} {nodes depth count : ℕ}
      (hnodes : nodes + 1 ≤ maxAstNodes) (hdepth : depth ≤ maxAstDepth)
      (h : Within operand (nodes + 1) (depth + 1) count) :
    Within (.unary operator operand) nodes depth count
  | binary (operator : BinaryOperator) {left right : ExpressionNode} {nodes depth middle count : ℕ}
      (hnodes : nodes + 1 ≤ maxAstNodes) (hdepth : depth ≤ maxAstDepth)
      (hleft : Within left (nodes + 1) (depth + 1) middle) (hright : Within right middle (depth + 1) count) :
    Within (.binary operator left right) nodes depth count

/-! ### The compiler -/

theorem safeName_ok {name : JsString} {segment : PathSegment} (h : safeName name = .ok segment) :
    NodeAgent.validPathSegment segment = true := by
  unfold safeName at h
  split at h
  · cases h
  · next hsafe =>
    cases h
    obtain ⟨hempty, hlong, hforbidden⟩ : name.length ≠ 0 ∧ ¬ name.length > 128 ∧ name ∉ forbiddenSegments := by
      simpa only [not_or] using hsafe
    simp only [NodeAgent.validPathSegment, Bool.and_eq_true, decide_eq_true_eq]
    exact ⟨⟨Nat.pos_of_ne_zero hempty, Nat.not_lt.mp hlong⟩, hforbidden⟩

theorem safeSegment_ok {property : JsepNode} {segment : PathSegment} (h : safeSegment property = .ok segment) :
    NodeAgent.validPathSegment segment = true := by
  unfold safeSegment at h
  split at h
  · exact safeName_ok h
  · split at h
    · next hindex =>
      cases h
      exact decide_eq_true hindex.2.2
    · cases h
  · cases h

theorem SafePath.single {segment : PathSegment} (h : NodeAgent.validPathSegment segment = true) :
    SafePath [segment] where
  nonempty := List.cons_ne_nil _ _
  short := by
    show 1 ≤ 64
    omega
  segments segment' hmem := by
    rw [List.mem_singleton.mp hmem]
    exact h

theorem SafePath.snoc {path : List PathSegment} (h : SafePath path) {segment : PathSegment}
    (hsegment : NodeAgent.validPathSegment segment = true)
    (hshort : ¬ (path ++ [segment]).length > maxPathSegments) : SafePath (path ++ [segment]) where
  nonempty := List.append_ne_nil_of_left_ne_nil h.nonempty _
  short := Nat.not_lt.mp hshort
  segments segment' hmem := by
    rcases List.mem_append.mp hmem with hmem | hmem
    · exact h.segments segment' hmem
    · rw [List.mem_singleton.mp hmem]
      exact hsegment

/-- The bound on a path, checked after each segment. -/
theorem limitPath_ok {path found : List PathSegment}
    (h : (if path.length > maxPathSegments then expressionError (js "property path is too deep")
      else .ok path) = Except.ok found) : found = path ∧ ¬ path.length > maxPathSegments := by
  split at h
  · cases h
  · next hshort =>
    cases h
    exact ⟨rfl, hshort⟩

/-- A member access adds one admitted segment to the path of its object. -/
theorem referencePath_member {computed optional : Bool} {object property : JsepNode} {path : List PathSegment}
    (h : referencePath (.member computed optional object property) = .ok path) :
    ∃ base segment, referencePath object = .ok base ∧ NodeAgent.validPathSegment segment = true ∧
      path = base ++ [segment] ∧ ¬ (base ++ [segment]).length > maxPathSegments := by
  rw [referencePath] at h
  simp only [bind, Except.bind, pure, Except.pure] at h
  cases optional with
  | true => cases h
  | false =>
    rcases hbase : referencePath object with message | base
    · rw [hbase] at h
      cases h
    · rw [hbase] at h
      cases computed with
      | true =>
        rcases hsegment : safeSegment property with message | segment
        · rw [hsegment] at h
          cases h
        · rw [hsegment] at h
          exact ⟨base, segment, rfl, safeSegment_ok hsegment, limitPath_ok h⟩
      | false =>
        cases property with
        | identifier name =>
          rcases hsegment : safeName name with message | segment
          · dsimp only at h
            rw [hsegment] at h
            cases h
          · dsimp only at h
            rw [hsegment] at h
            exact ⟨base, segment, rfl, safeName_ok hsegment, limitPath_ok h⟩
        | literal _ | member _ _ _ _ | unary _ _ | binary _ _ _ | other _ => cases h

theorem referencePath_safe {node : JsepNode} {path : List PathSegment} (h : referencePath node = .ok path) :
    SafePath path := by
  induction node generalizing path with
  | identifier name =>
    rw [referencePath] at h
    rcases hname : safeName name with message | segment
    · rw [hname] at h
      cases h
    · rw [hname] at h
      cases h
      exact SafePath.single (safeName_ok hname)
  | member computed optional object property ih _ =>
    obtain ⟨base, segment, hbase, hsegment, rfl, hshort⟩ := referencePath_member h
    exact (ih hbase).snoc hsegment hshort
  | literal value => cases h
  | unary operator argument ih => cases h
  | binary operator left right ihl ihr => cases h
  | other type => cases h

theorem literalValue_safe {value : JsepLiteral} {scalar : JsonScalar} (h : literalValue value = .ok scalar) :
    SafeScalar scalar := by
  intro q hq
  cases value with
  | num q' =>
    rw [literalValue] at h
    split at h
    · next hsafe =>
      cases h
      cases hq
      exact hsafe
    · cases h
  | str _ | bool _ | null =>
    cases h
    cases hq
  | nonFinite | other => cases h

/-- The two limits every node is checked against. -/
theorem convert_limits {node : JsepNode} {nodes depth : ℕ} {result : ExpressionNode × ℕ}
    (h : convert node nodes depth = .ok result) : nodes + 1 ≤ maxAstNodes ∧ depth ≤ maxAstDepth := by
  constructor
  · by_contra hmany
    rw [convert.eq_def] at h
    dsimp only at h
    rw [if_pos (Nat.not_le.mp hmany)] at h
    cases h
  · by_contra hdeep
    rw [convert.eq_def] at h
    dsimp only at h
    split at h
    · cases h
    · rw [if_pos (Nat.not_le.mp hdeep)] at h
      cases h

/-- `convert` within the limits, without the checks. -/
theorem convert_eq {node : JsepNode} {nodes depth : ℕ} (hnodes : nodes + 1 ≤ maxAstNodes)
    (hdepth : depth ≤ maxAstDepth) :
    convert node nodes depth =
      match node with
      | .literal value => (literalValue value).map fun scalar => (.literal scalar, nodes + 1)
      | .identifier name => (referencePath (.identifier name)).map fun path => (.reference path, nodes + 1)
      | .member computed optional object property =>
        (referencePath (.member computed optional object property)).map fun path => (.reference path, nodes + 1)
      | .unary operator argument =>
        (if operator = js "!" then .ok UnaryOperator.not
          else if operator = js "-" then .ok .negate
          else expressionError (js "unary operator " ++ operator ++ js " is not supported")) >>= fun op =>
        convert argument (nodes + 1) (depth + 1) >>= fun operand => .ok (.unary op operand.1, operand.2)
      | .binary operator left right =>
        (match binaryOperators.lookup operator with
          | some op => .ok op
          | none => expressionError (js "binary operator " ++ operator ++ js " is not supported")) >>= fun op =>
        convert left (nodes + 1) (depth + 1) >>= fun l =>
        convert right l.2 (depth + 1) >>= fun r => .ok (.binary op l.1 r.1, r.2)
      | .other type => expressionError (type ++ js " is not supported") := by
  rw [convert.eq_def]
  dsimp only
  rw [if_neg (Nat.not_lt.mpr hnodes), if_neg (Nat.not_lt.mpr hdepth)]
  cases node with
  | literal value => cases hvalue : literalValue value <;> rfl
  | identifier name => cases hpath : referencePath (.identifier name) <;> rfl
  | member computed optional object property =>
    cases hpath : referencePath (.member computed optional object property) <;> rfl
  | unary operator argument =>
    dsimp only
    split
    · rfl
    · split <;> rfl
  | binary operator left right =>
    dsimp only
    rcases binaryOperators.lookup operator with - | op
    · rfl
    · rfl
  | other type => rfl

/-- **What is converted is within the limits.** -/
theorem convert_within {node : JsepNode} {nodes depth : ℕ} {result : ExpressionNode × ℕ}
    (h : convert node nodes depth = .ok result) : Within result.1 nodes depth result.2 := by
  induction node generalizing nodes depth result with
  | literal value =>
    obtain ⟨hnodes, hdepth⟩ := convert_limits h
    rw [convert_eq hnodes hdepth] at h
    dsimp only at h
    rcases hvalue : literalValue value with message | scalar
    · rw [hvalue] at h
      cases h
    · rw [hvalue] at h
      cases h
      exact .literal hnodes hdepth (literalValue_safe hvalue)
  | identifier name =>
    obtain ⟨hnodes, hdepth⟩ := convert_limits h
    rw [convert_eq hnodes hdepth] at h
    dsimp only at h
    rcases hpath : referencePath (.identifier name) with message | path
    · rw [hpath] at h
      cases h
    · rw [hpath] at h
      cases h
      exact .reference hnodes hdepth (referencePath_safe hpath)
  | member computed optional object property _ _ =>
    obtain ⟨hnodes, hdepth⟩ := convert_limits h
    rw [convert_eq hnodes hdepth] at h
    dsimp only at h
    rcases hpath : referencePath (.member computed optional object property) with message | path
    · rw [hpath] at h
      cases h
    · rw [hpath] at h
      cases h
      exact .reference hnodes hdepth (referencePath_safe hpath)
  | unary operator argument ih =>
    obtain ⟨hnodes, hdepth⟩ := convert_limits h
    rw [convert_eq hnodes hdepth] at h
    obtain ⟨op, -, h⟩ := Outcome.bind_eq_ok.mp h
    obtain ⟨operand, hoperand, h⟩ := Outcome.bind_eq_ok.mp h
    cases h
    exact .unary op hnodes hdepth (ih hoperand)
  | binary operator left right ihl ihr =>
    obtain ⟨hnodes, hdepth⟩ := convert_limits h
    rw [convert_eq hnodes hdepth] at h
    obtain ⟨op, -, h⟩ := Outcome.bind_eq_ok.mp h
    obtain ⟨l, hl, h⟩ := Outcome.bind_eq_ok.mp h
    obtain ⟨r, hr, h⟩ := Outcome.bind_eq_ok.mp h
    cases h
    exact .binary op hnodes hdepth (ihl hl) (ihr hr)
  | other type =>
    obtain ⟨hnodes, hdepth⟩ := convert_limits h
    rw [convert_eq hnodes hdepth] at h
    cases h

theorem compileExpression_within {jsep : JsString → Except JsString JsepNode} {source : JsString}
    {e : CompiledExpression} (h : compileExpression jsep source = .ok e) :
    ∃ count, Within e.ast 0 0 count := by
  unfold compileExpression at h
  simp only [bind, Except.bind, pure, Except.pure, expressionError] at h
  split at h
  · cases h
  · split at h
    · split at h
      · cases h
      · next result hresult =>
        cases h
        exact ⟨result.2, convert_within hresult⟩
    · cases h

/-! ### The validators -/

theorem SafeScalar.isScalar {scalar : JsonScalar} (h : SafeScalar scalar) :
    (Value.ofScalar scalar).isScalar = true ∧ (Value.ofScalar scalar).InDomain := by
  cases scalar with
  | num q =>
    refine ⟨rfl, ?_⟩
    intro a ha
    cases ha
    exact h q rfl
  | str _ | bool _ | null => exact ⟨rfl, fun _ ha => by cases ha⟩

/-- Neither of the two checks at the head of a validator fires. -/
theorem within_limits {nodes depth : ℕ} (hnodes : nodes + 1 ≤ maxAstNodes) (hdepth : depth ≤ maxAstDepth) :
    ¬ (100 < nodes + 1 ∨ 20 < depth) := by
  rintro (hmany | hdeep)
  · exact Nat.not_lt.mpr hnodes hmany
  · exact Nat.not_lt.mpr hdepth hdeep

theorem Within.validateNode {node : ExpressionNode} {nodes depth count : ℕ}
    (h : Within node nodes depth count) : NodeAgent.validateNode node nodes depth = some count := by
  induction h with
  | @literal scalar nodes depth hnodes hdepth hscalar =>
    have hadmitted : NodeAgent.isScalar (Value.ofScalar scalar) = true := by
      cases scalar with
      | num q => exact hscalar q rfl
      | str _ | bool _ | null => rfl
    rw [NodeAgent.validateNode, if_neg (within_limits hnodes hdepth)]
    exact if_pos hadmitted
  | reference hnodes hdepth hpath =>
    rw [NodeAgent.validateNode, if_neg (within_limits hnodes hdepth)]
    exact if_pos ⟨List.length_pos_of_ne_nil hpath.nonempty, hpath.short, List.all_eq_true.mpr hpath.segments⟩
  | unary operator hnodes hdepth _ ih =>
    rw [NodeAgent.validateNode, if_neg (within_limits hnodes hdepth)]
    exact ih
  | binary operator hnodes hdepth _ _ ihl ihr =>
    rw [NodeAgent.validateNode, if_neg (within_limits hnodes hdepth)]
    simp only [ihl]
    exact ihr

end Expression

namespace PythonAgent

theorem pathSegment_ofSegment {segment : PathSegment} (h : NodeAgent.validPathSegment segment = true) :
    pathSegment (.ofSegment segment) = true := by
  cases segment with
  | index n => exact h
  | name s =>
    simp only [NodeAgent.validPathSegment, Bool.and_eq_true, decide_eq_true_eq] at h
    obtain ⟨⟨hpos, hshort⟩, hforbidden⟩ := h
    show pathSegment (.name (codePoints s)) = true
    simp only [pathSegment, Bool.and_eq_true, decide_eq_true_eq]
    refine ⟨⟨?_, (length_codePoints_le s).trans hshort⟩, ?_⟩
    · apply List.length_pos_of_ne_nil
      exact codePoints_ne_nil (List.ne_nil_of_length_pos hpos)
    · intro hmem
      obtain ⟨t, ht, heq⟩ := List.mem_map.mp hmem
      rw [codePoints_injective heq] at ht
      exact hforbidden ht

theorem parseNode_within {n : PyNode} {node : ExpressionNode} {nodes depth count : ℕ}
    (h : Expression.Within node nodes depth count) (hreads : Reads n node) :
    parseNode n nodes depth = some count := by
  induction h generalizing n with
  | literal hnodes hdepth hscalar =>
    cases hreads with
    | literal hsame =>
      rw [parseNode, if_neg (Expression.within_limits hnodes hdepth)]
      exact if_pos ((isScalar_eq hsame hscalar.isScalar.2).trans hscalar.isScalar.1)
  | @reference path _ _ hnodes hdepth hpath =>
    cases hreads
    rw [parseNode, if_neg (Expression.within_limits hnodes hdepth)]
    apply if_pos
    refine ⟨fun hnil => hpath.nonempty (List.map_eq_nil_iff.mp hnil), ?_, ?_⟩
    · rw [List.length_map]
      exact hpath.short
    · rw [List.all_map]
      exact List.all_eq_true.mpr fun segment hmem => pathSegment_ofSegment (hpath.segments segment hmem)
  | unary operator hnodes hdepth _ ih =>
    cases hreads with
    | unary _ hoperand =>
      rw [parseNode, if_neg (Expression.within_limits hnodes hdepth)]
      exact ih hoperand
  | binary operator hnodes hdepth _ _ ihl ihr =>
    cases hreads with
    | binary _ hleft hright =>
      rw [parseNode, if_neg (Expression.within_limits hnodes hdepth)]
      simp only [ihl hleft]
      exact ihr hright

/-- Every expression is read as some node. -/
theorem exists_reads (node : ExpressionNode) : ∃ n, Reads n node := by
  induction node with
  | literal scalar =>
    cases scalar with
    | str s => exact ⟨_, .literal (.str s)⟩
    | num q => exact ⟨_, .literal (same_ofJson (.num q))⟩
    | bool b => exact ⟨_, .literal (.bool b)⟩
    | null => exact ⟨_, .literal .none⟩
  | reference path => exact ⟨_, .reference path⟩
  | unary operator operand ih =>
    obtain ⟨n, hn⟩ := ih
    exact ⟨_, .unary operator hn⟩
  | binary operator left right ihl ihr =>
    obtain ⟨l, hl⟩ := ihl
    obtain ⟨r, hr⟩ := ihr
    exact ⟨_, .binary operator hl hr⟩

end PythonAgent

namespace JvmBridge

theorem pathSegment_eq (segment : PathSegment) : pathSegment segment = NodeAgent.validPathSegment segment := by
  cases segment with
  | index n => rfl
  | name s =>
    show (decide (s ≠ []) && _ && _) = (decide (0 < s.length) && _ && _)
    rw [decide_eq_decide.mpr (@List.length_pos_iff _ s).symm]

theorem parseNode_within {n : JvmNode} {node : ExpressionNode} {nodes depth count : ℕ}
    (h : Expression.Within node nodes depth count) (hreads : Reads n node) :
    parseNode n nodes depth = some count := by
  induction h generalizing n with
  | literal hnodes hdepth hscalar =>
    cases hreads with
    | literal hsame =>
      rw [parseNode, if_neg (Expression.within_limits hnodes hdepth)]
      exact if_pos ((isJsonScalar_eq hsame hscalar.isScalar.2).trans hscalar.isScalar.1)
  | reference hnodes hdepth hpath =>
    cases hreads
    rw [parseNode, if_neg (Expression.within_limits hnodes hdepth)]
    apply if_pos
    refine ⟨hpath.nonempty, hpath.short, List.all_eq_true.mpr fun segment hmem => ?_⟩
    rw [pathSegment_eq]
    exact hpath.segments segment hmem
  | unary operator hnodes hdepth _ ih =>
    cases hreads with
    | unary _ hoperand =>
      rw [parseNode, if_neg (Expression.within_limits hnodes hdepth)]
      exact ih hoperand
  | binary operator hnodes hdepth _ _ ihl ihr =>
    cases hreads with
    | binary _ hleft hright =>
      rw [parseNode, if_neg (Expression.within_limits hnodes hdepth)]
      simp only [ihl hleft]
      exact ihr hright

/-- Every expression is read as some node. -/
theorem exists_reads (node : ExpressionNode) : ∃ n, Reads n node := by
  induction node with
  | literal scalar =>
    cases scalar with
    | str s => exact ⟨_, .literal (.string s)⟩
    | num q => exact ⟨_, .literal (same_ofJson (.num q))⟩
    | bool b => exact ⟨_, .literal (.bool b)⟩
    | null => exact ⟨_, .literal .null⟩
  | reference path => exact ⟨_, .reference path⟩
  | unary operator operand ih =>
    obtain ⟨n, hn⟩ := ih
    exact ⟨_, .unary operator hn⟩
  | binary operator left right ihl ihr =>
    obtain ⟨l, hl⟩ := ihl
    obtain ⟨r, hr⟩ := ihr
    exact ⟨_, .binary operator hl hr⟩

end JvmBridge

/-! ### Acceptance -/

namespace Expression

/-- The three agents admit an expression, in whatever way they read it. -/
structure Admitted (ast : ExpressionNode) : Prop where
  node : (NodeAgent.validateNode ast 0 0).isSome = true
  pythonReads : ∃ n, PythonAgent.Reads n ast
  python : ∀ n, PythonAgent.Reads n ast → (PythonAgent.parseNode n 0 0).isSome = true
  jvmReads : ∃ n, JvmBridge.Reads n ast
  jvm : ∀ n, JvmBridge.Reads n ast → (JvmBridge.parseNode n 0 0).isSome = true

theorem Within.admitted {ast : ExpressionNode} {count : ℕ} (h : Within ast 0 0 count) : Admitted ast where
  node := by
    rw [h.validateNode]
    rfl
  pythonReads := PythonAgent.exists_reads ast
  python n hreads := by
    rw [PythonAgent.parseNode_within h hreads]
    rfl
  jvmReads := JvmBridge.exists_reads ast
  jvm n hreads := by
    rw [JvmBridge.parseNode_within h hreads]
    rfl

/-- **What the compiler emits is admitted by the validators of all three agents.** -/
theorem compileExpression_admitted {jsep : JsString → Except JsString JsepNode} {source : JsString}
    {e : CompiledExpression} (h : compileExpression jsep source = .ok e) : Admitted e.ast := by
  obtain ⟨count, hwithin⟩ := compileExpression_within h
  exact hwithin.admitted

/-- A parser that knows the element of a list after its own. -/
def jsepOfElement (source : JsString) : Except JsString JsepNode :=
  if source = js "!a[2]" then
    .ok (.unary (js "!") (.member true false (.identifier (js "a")) (.literal (.num 2))))
  else .error (js "Unexpected character")

theorem admitted_element :
    Admitted (.unary .not (.reference [.name (js "a"), .index 2])) :=
  compileExpression_admitted
    (show compileExpression jsepOfElement (js " !a[2]") = .ok ⟨js "!a[2]", .unary .not (.reference [.name (js "a"), .index 2])⟩ by decide)

end Expression
