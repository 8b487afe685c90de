/-
LiveProbe/TemplateAgreement.lean

A template of dot paths can be rendered by either renderer of the Node agent: as
it is, by `renderTemplate`, or compiled placeholder by placeholder, by
`renderExpressionTemplate`.  The two give one text on every capture that has all
the paths exactly when every placeholder holds a path of names, bare, and no
surrogate pair is cut (`agrees_iff`).

A placeholder that is not of this form is told apart on a scrubbed capture, in
which every value is one mark and only the names of dot paths are properties:
there the two renderers put texts with different first units in its place.
-/
import LiveProbe.NodeCapture
import LiveProbe.Templates

open JsString Expression

namespace NodeCapture

/-! ### Pieces of a template -/

/-- A stretch of a template: a text, or what a placeholder holds. -/
inductive Piece
  | text (value : JsString)
  | hole (body : JsString)
  deriving DecidableEq

/-- A template from a cursor on, cut at its matches. -/
def cut (template : JsString) : ℕ → List (ℕ × JsString) → List Piece
  | cursor, [] =>
    if cursor < template.length then [.text (slice template cursor template.length)] else []
  | cursor, (index, body) :: rest =>
    (if cursor < index then [.text (slice template cursor index)] else []) ++
      .hole body :: cut template (index + body.length + 3) rest

def pieces (template : JsString) : List Piece := cut template 0 (templateMatches template)

/-- What is put in the place of a piece. -/
def Piece.fill (f : JsString → JsString) : Piece → JsString
  | .text value => value
  | .hole body => f body

theorem slice_eq_nil {s : JsString} {start stop : ℕ} (h : ¬ start < stop) : slice s start stop = [] := by
  unfold slice
  refine List.drop_eq_nil_of_le ?_
  rw [List.length_take]
  omega

theorem mem_cut {template body : JsString} {cursor : ℕ} {found : List (ℕ × JsString)} :
    .hole body ∈ cut template cursor found ↔ ∃ index, (index, body) ∈ found := by
  induction found generalizing cursor with
  | nil =>
    rw [cut]
    split <;> simp
  | cons m rest ih =>
    obtain ⟨index, other⟩ := m
    rw [cut, List.mem_append, List.mem_cons, ih]
    constructor
    · rintro (htext | heq | ⟨i, hmem⟩)
      · split at htext <;> simp at htext
      · cases heq
        exact ⟨index, List.mem_cons_self ..⟩
      · exact ⟨i, List.mem_cons_of_mem _ hmem⟩
    · rintro ⟨i, hmem⟩
      rcases List.mem_cons.mp hmem with heq | hmem
      · cases heq
        exact .inr (.inl rfl)
      · exact .inr (.inr ⟨i, hmem⟩)

theorem replaced_eq (template : JsString) (f : JsString → JsString) (cursor : ℕ)
    (found : List (ℕ × JsString)) :
    replaced template f cursor found = ((cut template cursor found).map (Piece.fill f)).flatten := by
  induction found generalizing cursor with
  | nil =>
    rw [replaced, cut]
    split
    · simp [Piece.fill]
    · next h => rw [slice_eq_nil h, List.map_nil, List.flatten_nil]
  | cons m rest ih =>
    obtain ⟨index, body⟩ := m
    rw [replaced, cut, ih, List.map_append, List.flatten_append, List.map_cons, List.flatten_cons]
    split
    · simp [Piece.fill]
    · next h => simp [slice_eq_nil h, Piece.fill]

section

variable {jsep : JsString → Except JsString JsepNode} {ν : Type} {heap : Heap ν} {policy : ExpressionPolicy}
  {root : ν}

/-- What the compiled placeholder is rendered as. -/
def renderCompiled (jsep : JsString → Except JsString JsepNode) (heap : Heap ν) (policy : ExpressionPolicy)
    (root : ν) (body : JsString) : JsString :=
  match compileExpression jsep body with
  | .ok expression => renderSegment heap policy root (.expression expression)
  | .error _ => []

theorem templateSegments_eq_ok {template : JsString} {cursor : ℕ} {found : List (ℕ × JsString)}
    {segments : List TemplateSegment} (h : templateSegments jsep template cursor found = .ok segments) :
    segments.map (renderSegment heap policy root) =
      (cut template cursor found).map (Piece.fill (renderCompiled jsep heap policy root)) := by
  induction found generalizing cursor segments with
  | nil =>
    rw [templateSegments] at h
    cases h
    rw [cut]
    split <;> rfl
  | cons m rest ih =>
    obtain ⟨index, body⟩ := m
    rw [templateSegments] at h
    obtain ⟨e, he, h⟩ := Outcome.bind_eq_ok.mp h
    obtain ⟨tail, htail, h⟩ := Outcome.bind_eq_ok.mp h
    cases h
    have hbody : renderCompiled jsep heap policy root body =
        renderSegment heap policy root (.expression e) := by
      rw [renderCompiled, he]
    rw [cut, List.map_append, List.map_append, List.map_cons, List.map_cons, ih htail,
      Piece.fill, hbody]
    split <;> rfl

theorem compiled_of_templateSegments {template : JsString} {cursor : ℕ} {found : List (ℕ × JsString)}
    {segments : List TemplateSegment} (h : templateSegments jsep template cursor found = .ok segments)
    {index : ℕ} {body : JsString} (hmem : (index, body) ∈ found) :
    ∃ e, compileExpression jsep body = .ok e := by
  induction found generalizing cursor segments with
  | nil => cases hmem
  | cons m rest ih =>
    rw [templateSegments] at h
    obtain ⟨e, he, h⟩ := Outcome.bind_eq_ok.mp h
    obtain ⟨tail, htail, -⟩ := Outcome.bind_eq_ok.mp h
    rcases List.mem_cons.mp hmem with rfl | hmem
    · exact ⟨e, he⟩
    · exact ih htail hmem

theorem templateSegments_of_compiled {template : JsString} {cursor : ℕ} {found : List (ℕ × JsString)}
    (h : ∀ index body, (index, body) ∈ found → ∃ e, compileExpression jsep body = .ok e) :
    ∃ segments, templateSegments jsep template cursor found = .ok segments := by
  induction found generalizing cursor with
  | nil => exact ⟨_, rfl⟩
  | cons m rest ih =>
    obtain ⟨index, body⟩ := m
    obtain ⟨e, he⟩ := h index body (List.mem_cons_self ..)
    obtain ⟨tail, htail⟩ := ih fun i b hmem => h i b (List.mem_cons_of_mem _ hmem)
    rw [templateSegments, he]
    show ∃ segments, (templateSegments jsep template _ rest >>= _) = .ok segments
    rw [htail]
    exact ⟨_, rfl⟩

end

/-! ### Dot paths in placeholders -/

/-- `[A-Za-z_$][A-Za-z0-9_$]*` -/
def isName : JsString → Bool
  | [] => false
  | c :: t => isNameStart c && t.all fun d => isNameStart d || isDigit d

/-- The words that jsep reads as something else than a variable. -/
def reservedWords : List JsString := [js "true", js "false", js "null", js "this"]

/-- A path of names that starts at a variable. -/
def isNamePath (path : JsString) : Bool :=
  (path.splitOn 0x2E).all isName && (path.splitOn 0x2E).head?.all (· ∉ reservedWords)

/-- No blanks around a path of names. -/
def isBarePath (body : JsString) : Bool := trim body = body && isNamePath body

theorem isNameStart_or_isDigit_of_mem {segment : JsString} (h : isLegacyDotSegment segment = true)
    {c : UInt16} (hc : c ∈ segment) : (isNameStart c || isDigit c) = true := by
  rcases segment with - | ⟨d, t⟩
  · cases hc
  unfold isLegacyDotSegment at h
  simp only [Bool.or_eq_true, Bool.and_eq_true, decide_eq_true_eq, List.all_eq_true] at h
  rcases h with (⟨hd, ht⟩ | hzero) | ⟨⟨hd, -⟩, ht⟩
  · rcases List.mem_cons.mp hc with rfl | hc
    · rw [hd]
      rfl
    · rw [Bool.or_eq_true]
      exact ht c hc
  · rw [hzero] at hc
    rcases List.mem_singleton.mp (show c ∈ [0x30] from hc) with rfl
    decide
  · rw [Bool.or_eq_true]
    rcases List.mem_cons.mp hc with rfl | hc
    · exact .inr hd
    · exact .inr (ht c hc)

theorem not_isSpace_of_unit {c : UInt16} (h : (isNameStart c || isDigit c) = true) : isSpace c = false := by
  rw [Bool.eq_false_iff]
  intro hs
  simp only [isNameStart, isAlpha, isSpace, isDigit, Bool.and_eq_true, Bool.or_eq_true, decide_eq_true_eq,
    UInt16.le_iff_toNat_le, ← UInt16.toNat_inj, UInt16.reduceToNat] at h hs
  omega

theorem mem_intercalate {x c : UInt16} {parts : List JsString} (h : c ∈ [x].intercalate parts) :
    c = x ∨ ∃ part ∈ parts, c ∈ part := by
  induction parts with
  | nil => cases h
  | cons part parts ih =>
    rcases parts with - | ⟨next, rest⟩
    · rw [List.intercalate_singleton] at h
      exact .inr ⟨part, List.mem_singleton_self part, h⟩
    · rw [List.intercalate_cons_cons, List.append_assoc, List.mem_append, List.mem_append,
        List.mem_singleton] at h
      rcases h with h | rfl | h
      · exact .inr ⟨part, List.mem_cons_self .., h⟩
      · exact .inl rfl
      · rcases ih h with rfl | ⟨q, hq, hc⟩
        · exact .inl rfl
        · exact .inr ⟨q, List.mem_cons_of_mem _ hq, hc⟩

/-- Only blanks are trimmed, and no segment of a dot path has any. -/
theorem trim_of_segments {path : JsString}
    (h : ∀ segment ∈ path.splitOn 0x2E, isLegacyDotSegment segment = true) : trim path = path := by
  refine trim_eq_self fun c hc => ?_
  rw [show path = [0x2E].intercalate (path.splitOn 0x2E) from (List.intercalate_splitOn 0x2E).symm] at hc
  rcases mem_intercalate hc with rfl | ⟨segment, hmem, hc⟩
  · decide
  · exact not_isSpace_of_unit (isNameStart_or_isDigit_of_mem (h segment hmem) hc)

/-- What `isLegacyDotPath` says of every segment. -/
theorem segment_of_isLegacyDotPath {path segment : JsString} (h : isLegacyDotPath path = true)
    (hmem : segment ∈ path.splitOn 0x2E) :
    isLegacyDotSegment segment = true ∧ safeName segment = .ok (.name segment) := by
  unfold isLegacyDotPath at h
  have hsegment := List.all_eq_true.mp (Bool.and_eq_true_iff.mp h).2 segment hmem
  simp only [Bool.and_eq_true, decide_eq_true_eq] at hsegment
  obtain ⟨⟨hlength, hlegacy⟩, hallowed⟩ := hsegment
  refine ⟨hlegacy, ?_⟩
  have hne : segment.length ≠ 0 := by
    rintro hzero
    rw [List.length_eq_zero_iff.mp hzero] at hlegacy
    cases hlegacy
  exact if_neg (not_or.mpr ⟨hne, not_or.mpr ⟨not_lt.mpr hlength, hallowed⟩⟩)

/-! ### What jsep makes of dot paths -/

/-- The tree of a word: three of them are literals. -/
def word (name : JsString) : JsepNode :=
  if name = js "true" then .literal (.bool true)
  else if name = js "false" then .literal (.bool false)
  else if name = js "null" then .literal .null
  else if name = js "this" then .other (js "ThisExpression")
  else .identifier name

/-- The tree of an expression followed by fixed names. -/
def memberChain (object : JsepNode) (names : List JsString) : JsepNode :=
  names.foldl (fun object name => .member false false object (.identifier name)) object

/-- What jsep is documented to do with dot paths: names are properties, and a
numeral is a number where it stands first and an error where it follows a point. -/
structure ReadsDotPaths (jsep : JsString → Except JsString JsepNode) : Prop where
  names : ∀ path head tail, path.splitOn 0x2E = head :: tail → (∀ name ∈ head :: tail, isName name = true) →
    jsep path = .ok (memberChain (word head) tail)
  numerals : ∀ path node, isLegacyDotPath path = true → (path.splitOn 0x2E).all isName = false →
    jsep path = .ok node → node = .literal .nonFinite ∨ ∃ q, 0 ≤ q ∧ node = .literal (.num q)

/-- The literals that a dot path is read as. -/
inductive IsWord : JsonScalar → Prop
  | bool (b : Bool) : IsWord (.bool b)
  | null : IsWord .null
  | num (q : ℚ) : 0 ≤ q → IsWord (.num q)

theorem convert_member (object property : JsepNode) :
    convert (.member false false object property) 0 0 =
      (referencePath (.member false false object property)).map fun path => (.reference path, 1) := by
  rw [convert]
  show (referencePath _ >>= _) = _
  rcases referencePath (.member false false object property) with message | path
  · rfl
  · rfl

theorem convert_identifier (name : JsString) :
    convert (.identifier name) 0 0 =
      (referencePath (.identifier name)).map fun path => (.reference path, 1) := by
  rw [convert]
  show (referencePath _ >>= _) = _
  rcases referencePath (.identifier name) with message | path
  · rfl
  · rfl

theorem convert_number (q : ℚ) :
    convert (.literal (.num q)) 0 0 =
      if safeNumber q then .ok (.literal (.num q), 1)
      else expressionError
        (js "only finite JSON scalar literals within the safe integer range are supported") := by
  rw [convert]
  show (literalValue (.num q) >>= _) = _
  rw [literalValue]
  split <;> rfl

theorem memberChain_eq_member (object : JsepNode) {names : List JsString} (h : names ≠ []) :
    ∃ inner property, memberChain object names = .member false false inner property := by
  rcases List.eq_nil_or_concat names with rfl | ⟨init, last, rfl⟩
  · exact absurd rfl h
  · refine ⟨memberChain object init, .identifier last, ?_⟩
    unfold memberChain
    rw [List.concat_eq_append, List.foldl_append]
    rfl

theorem referencePath_member {object : JsepNode} {path : List PathSegment} {name : JsString}
    (h : referencePath object = .ok path) (hname : safeName name = .ok (.name name))
    (hlength : path.length + 1 ≤ maxPathSegments) :
    referencePath (.member false false object (.identifier name)) = .ok (path ++ [.name name]) := by
  rw [referencePath, h]
  show (safeName name >>= _) = _
  rw [hname]
  show (if (path ++ [PathSegment.name name]).length > maxPathSegments then _ else _) = _
  rw [if_neg (by rw [List.length_append, List.length_singleton]; omega)]
  rfl

theorem referencePath_memberChain {names : List JsString} {object : JsepNode} {path : List PathSegment}
    (h : referencePath object = .ok path) (hnames : ∀ name ∈ names, safeName name = .ok (.name name))
    (hlength : path.length + names.length ≤ maxPathSegments) :
    referencePath (memberChain object names) = .ok (path ++ names.map .name) := by
  induction names generalizing object path with
  | nil => rw [List.map_nil, List.append_nil]; exact h
  | cons name names ih =>
    rw [List.length_cons] at hlength
    have hstep := referencePath_member h (hnames name (List.mem_cons_self ..)) (by omega)
    have hrest := ih hstep (fun n hn => hnames n (List.mem_cons_of_mem _ hn)) (by
      rw [List.length_append, List.length_singleton]
      omega)
    rw [List.append_assoc] at hrest
    exact hrest

theorem referencePath_memberChain_error {names : List JsString} {object : JsepNode} {message : JsString}
    (h : referencePath object = .error message) :
    referencePath (memberChain object names) = .error message := by
  induction names generalizing object with
  | nil => exact h
  | cons name names ih =>
    refine ih ?_
    rw [referencePath, h]
    rfl

theorem word_identifier {name : JsString} (h : name ∉ reservedWords) : word name = .identifier name := by
  simp only [reservedWords, List.mem_cons, List.not_mem_nil, or_false, not_or] at h
  obtain ⟨htrue, hfalse, hnull, hthis⟩ := h
  rw [word, if_neg htrue, if_neg hfalse, if_neg hnull, if_neg hthis]

/-- A word that is no variable has no properties, and is at most a literal. -/
theorem word_reserved {name : JsString} (h : name ∈ reservedWords) :
    (∃ message, referencePath (word name) = .error message) ∧
      ∀ result, convert (word name) 0 0 = .ok result → ∃ v, result.1 = .literal v ∧ IsWord v := by
  simp only [reservedWords, List.mem_cons, List.not_mem_nil, or_false] at h
  rcases h with rfl | rfl | rfl | rfl
  · exact ⟨⟨_, rfl⟩, fun result hresult => by
      rw [show word (js "true") = .literal (.bool true) from rfl] at hresult
      cases hresult
      exact ⟨_, rfl, .bool true⟩⟩
  · exact ⟨⟨_, rfl⟩, fun result hresult => by
      rw [show word (js "false") = .literal (.bool false) from rfl] at hresult
      cases hresult
      exact ⟨_, rfl, .bool false⟩⟩
  · exact ⟨⟨_, rfl⟩, fun result hresult => by
      rw [show word (js "null") = .literal .null from rfl] at hresult
      cases hresult
      exact ⟨_, rfl, .null⟩⟩
  · exact ⟨⟨_, rfl⟩, fun result hresult => by
      rw [show word (js "this") = .other (js "ThisExpression") from rfl] at hresult
      cases hresult⟩

section

variable {jsep : JsString → Except JsString JsepNode} {body : JsString}

theorem compileExpression_of_tree {node : JsepNode} (hlegacy : isLegacyDotPath (trim body) = true)
    (h : jsep (trim body) = .ok node) :
    compileExpression jsep body = (convert node 0 0).map fun result => ⟨trim body, result.1⟩ := by
  have hlength : ¬ ((trim body).length = 0 ∨ (trim body).length > maxSourceLength) := by
    unfold isLegacyDotPath at hlegacy
    simp only [Bool.and_eq_true, decide_eq_true_eq] at hlegacy
    unfold maxSourceLength
    omega
  unfold compileExpression
  rw [if_neg hlength, h]
  show (convert node 0 0 >>= _) = _
  rcases convert node 0 0 with message | result
  · rfl
  · rfl

/-- A compiled expression is a tree of jsep, converted. -/
theorem tree_of_compileExpression {e : CompiledExpression} (h : compileExpression jsep body = .ok e) :
    ∃ node, jsep (trim body) = .ok node := by
  rcases hnode : jsep (trim body) with message | node
  · unfold compileExpression at h
    simp only [bind, Except.bind, expressionError, hnode] at h
    split at h <;> cases h
  · exact ⟨node, rfl⟩

/-- A path of names is compiled to the reference it is. -/
theorem compileExpression_names (hjsep : ReadsDotPaths jsep) (hlegacy : isLegacyDotPath (trim body) = true)
    (hshort : ((trim body).splitOn 0x2E).length ≤ maxPathSegments) (hname : isNamePath (trim body) = true) :
    compileExpression jsep body =
      .ok ⟨trim body, .reference (((trim body).splitOn 0x2E).map .name)⟩ := by
  obtain ⟨hnames, hhead⟩ := Bool.and_eq_true_iff.mp hname
  rcases hsplit : (trim body).splitOn 0x2E with - | ⟨head, tail⟩
  · exact absurd hsplit (List.splitOn_ne_nil 0x2E (trim body))
  have hsafe : ∀ name ∈ head :: tail, safeName name = .ok (.name name) := fun name hmem =>
    (segment_of_isLegacyDotPath hlegacy (hsplit ▸ hmem)).2
  rw [hsplit] at hnames hhead hshort
  rw [compileExpression_of_tree hlegacy (hjsep.names _ _ _ hsplit (List.all_eq_true.mp hnames)),
    word_identifier (of_decide_eq_true hhead)]
  have hbase : referencePath (.identifier head) = .ok [.name head] := by
    rw [referencePath, hsafe head (List.mem_cons_self ..)]
    rfl
  have hpath := referencePath_memberChain hbase (fun name hmem => hsafe name (List.mem_cons_of_mem _ hmem))
    (show 1 + tail.length ≤ maxPathSegments by
      rw [List.length_cons] at hshort
      omega)
  by_cases htail : tail = []
  · rw [htail]
    show (convert (.identifier head) 0 0).map _ = _
    rw [convert_identifier, hbase]
    rfl
  · obtain ⟨inner, property, hmember⟩ := memberChain_eq_member (.identifier head) htail
    rw [hmember] at hpath ⊢
    rw [convert_member, hpath]
    rfl

/-- Any other dot path is compiled to a literal, if it is compiled at all. -/
theorem compileExpression_word (hjsep : ReadsDotPaths jsep) (hlegacy : isLegacyDotPath (trim body) = true)
    (hname : isNamePath (trim body) = false) {e : CompiledExpression}
    (h : compileExpression jsep body = .ok e) : ∃ v, e.ast = .literal v ∧ IsWord v := by
  obtain ⟨node, hnode⟩ := tree_of_compileExpression h
  rw [compileExpression_of_tree hlegacy hnode] at h
  rcases hconvert : convert node 0 0 with message | result
  · rw [hconvert] at h
    cases h
  rw [hconvert] at h
  cases h
  cases hall : ((trim body).splitOn 0x2E).all isName with
  | false =>
    rcases hjsep.numerals _ node hlegacy hall hnode with rfl | ⟨q, hq, rfl⟩
    · cases hconvert
    · rw [convert_number] at hconvert
      split at hconvert
      · cases hconvert
        exact ⟨_, rfl, .num q hq⟩
      · cases hconvert
  | true =>
    rcases hsplit : (trim body).splitOn 0x2E with - | ⟨head, tail⟩
    · exact absurd hsplit (List.splitOn_ne_nil 0x2E (trim body))
    have hreserved : head ∈ reservedWords := by
      unfold isNamePath at hname
      rw [hall, hsplit] at hname
      by_contra hfree
      rw [show ((head :: tail).head?.all fun w => decide (w ∉ reservedWords)) = true from
        decide_eq_true hfree] at hname
      cases hname
    rw [hsplit] at hall
    have htree := hjsep.names _ _ _ hsplit (List.all_eq_true.mp hall)
    rw [hnode] at htree
    cases htree
    obtain ⟨⟨message, herror⟩, hword⟩ := word_reserved hreserved
    by_cases htail : tail = []
    · rw [htail] at hconvert
      exact hword result hconvert
    · obtain ⟨inner, property, hmember⟩ := memberChain_eq_member (word head) htail
      have hfails : referencePath (memberChain (word head) tail) = .error message :=
        referencePath_memberChain_error herror
      rw [hmember] at hfails hconvert
      rw [convert_member, hfails] at hconvert
      cases hconvert

end

/-! ### Scalars that may be shown -/

/-- A string, a boolean, null or a safe integer. -/
def isPlain : Captured → Bool
  | .null | .string _ | .boolean _ => true
  | .number a => a.value.den = 1 && a.value.num.natAbs ≤ Schema.maxSafeInteger
  | _ => false

theorem isUnsafeNumber_of_isPlain {c : Captured} (h : isPlain c = true) : isUnsafeNumber c = false := by
  cases c with
  | number a =>
    have hsafe := (Bool.and_eq_true_iff.mp h).2
    show (!(decide (a.value.den ≠ 1) || decide (a.value.num.natAbs ≤ Schema.maxSafeInteger))) = false
    rw [hsafe, Bool.or_true]
    rfl
  | truncated | undefined | null | boolean b | string s | function | array | object => rfl
  | notFinite => cases h

theorem renderExpressionValue_of_isPlain {c : Captured} (h : isPlain c = true) :
    renderExpressionValue c = renderValue c := by
  cases c with
  | number a | undefined | null | boolean b | string s | array | object | notFinite => rfl
  | truncated | function => cases h

section

variable {lower : JsString → JsString} {config : NodeAgent.SerializerConfig} {ν : Type} {heap : Heap ν}
  {root v : ν}

/-- A path comes to a scalar that nothing redacts. -/
structure Shows (lower : JsString → JsString) (config : NodeAgent.SerializerConfig) (heap : Heap ν)
    (root : ν) (path : JsString) (v : ν) : Prop where
  resolved : resolveDotPath heap root path = ⟨true, false, some v⟩
  plain : isPlain (heap.captured v) = true
  visible : shouldRedact lower config path (heap.captured v) = false

/-- Every placeholder does, once it is trimmed. -/
def ShowsAll (lower : JsString → JsString) (config : NodeAgent.SerializerConfig) (heap : Heap ν) (root : ν)
    (template : JsString) : Prop :=
  ∀ body, .hole body ∈ pieces template → ∃ v, Shows lower config heap root (trim body) v

theorem resolveDotPath_found {path : JsString} (h : resolveDotPath heap root path = ⟨true, false, some v⟩) :
    (path.splitOn 0x2E).length ≤ 64 ∧ followDots heap (path.splitOn 0x2E) root = ⟨true, false, some v⟩ := by
  unfold resolveDotPath at h
  split at h
  · cases h
  · rename_i hvalid
    refine ⟨?_, h⟩
    rw [Bool.not_eq_true, Bool.not_eq_false'] at hvalid
    unfold NodeAgent.isValidDotPath at hvalid
    split at hvalid
    · cases hvalid
    · exact of_decide_eq_true (Bool.and_eq_true_iff.mp hvalid).1

theorem followDots_nil {current : ν} :
    followDots heap [] current = ⟨true, false, some v⟩ ↔ v = current ∧ heap.captured v ≠ .truncated := by
  simp only [followDots, PathResult.mk.injEq, decide_eq_false_iff_not, Option.some.injEq, true_and]
  constructor
  · rintro ⟨hne, rfl⟩
    exact ⟨rfl, hne⟩
  · rintro ⟨rfl, hne⟩
    exact ⟨hne, rfl⟩

theorem followDots_cons {segment : JsString} {segments : List JsString} {current : ν}
    (h : followDots heap (segment :: segments) current = ⟨true, false, some v⟩) :
    (heap.captured current = .array ∨ heap.captured current = .object) ∧
      ∃ next, heap.property current segment = some next ∧
        followDots heap segments next = ⟨true, false, some v⟩ := by
  rw [followDots] at h
  rcases hnext : heap.property current segment with - | next
  · rw [hnext] at h
    cases hkind : heap.captured current <;> rw [hkind] at h <;> cases h
  · rw [hnext] at h
    cases hkind : heap.captured current with
    | array =>
      rw [hkind] at h
      exact ⟨.inl rfl, next, rfl, h⟩
    | object =>
      rw [hkind] at h
      exact ⟨.inr rfl, next, rfl, h⟩
    | truncated | undefined | null | boolean b | number a | notFinite | string s | function =>
      rw [hkind] at h
      cases h

/-- Both readers of paths follow names alike. -/
theorem resolvePath_of_followDots {policy : ExpressionPolicy} {segments : List JsString} {current : ν}
    (h : followDots heap segments current = ⟨true, false, some v⟩)
    (hkeys : ∀ segment ∈ segments, policy.isRedactedKey segment = false) :
    resolvePath heap policy (segments.map .name) current = safeResult policy (heap.captured v) := by
  induction segments generalizing current with
  | nil =>
    obtain ⟨rfl, hne⟩ := followDots_nil.mp h
    exact if_neg hne
  | cons segment segments ih =>
    obtain ⟨hkind, next, hnext, hrest⟩ := followDots_cons h
    have hkey : policy.isRedactedKey segment = false := hkeys segment (List.mem_cons_self ..)
    have hstep := ih hrest fun s hs => hkeys s (List.mem_cons_of_mem _ hs)
    rw [List.map_cons, resolvePath]
    show (if policy.isRedactedKey segment then _ else _) = _
    rw [hkey, if_neg Bool.false_ne_true]
    change heap.property current (Portable.segmentKey (.name segment)) = some next at hnext
    rcases hkind with hkind | hkind
    · rw [hkind, hnext]
      exact hstep
    · rw [hkind, hnext]
      exact hstep

theorem renderPath_of_shows {path : JsString} (h : Shows lower config heap root path v) :
    renderPath heap (shouldRedact lower config) root path = renderValue (heap.captured v) := by
  unfold renderPath
  rw [h.resolved]
  show (if shouldRedact lower config path (heap.captured v) = true then _ else _) = _
  rw [h.visible]
  rfl

theorem safeResult_of_shows {path : JsString} (h : Shows lower config heap root path v) :
    safeResult (expressionPolicy lower config) (heap.captured v) = .ok (heap.captured v) := by
  have hvalue : isRedactedValue config (heap.captured v) = false :=
    (Bool.or_eq_false_iff.mp h.visible).2
  unfold safeResult
  rw [isUnsafeNumber_of_isPlain h.plain]
  show (if isRedactedValue config (heap.captured v) then _ else _) = _
  rw [hvalue]
  rfl

variable {jsep : JsString → Except JsString JsepNode} {body : JsString}

/-- A path of names is compiled to what it comes to. -/
theorem renderCompiled_of_shows (hjsep : ReadsDotPaths jsep) (hlegacy : isLegacyDotPath (trim body) = true)
    (hname : isNamePath (trim body) = true) (h : Shows lower config heap root (trim body) v) :
    renderCompiled jsep heap (expressionPolicy lower config) root body = renderValue (heap.captured v) := by
  obtain ⟨hshort, hfollow⟩ := resolveDotPath_found h.resolved
  have hkeys : ∀ segment ∈ (trim body).splitOn 0x2E,
      (expressionPolicy lower config).isRedactedKey segment = false := fun segment hmem => by
    have hnone := List.any_eq_false.mp (Bool.or_eq_false_iff.mp h.visible).1 segment hmem
    exact Bool.eq_false_iff.mpr hnone
  have hvalue := resolvePath_of_followDots hfollow hkeys
  rw [safeResult_of_shows h] at hvalue
  rw [renderCompiled, compileExpression_names hjsep hlegacy hshort hname]
  have heval : evaluateExpression heap ⟨trim body, .reference (((trim body).splitOn 0x2E).map .name)⟩ root
      (expressionPolicy lower config) = .ok (heap.captured v) := hvalue
  dsimp only [renderSegment]
  rw [heval]
  exact renderExpressionValue_of_isPlain h.plain

/-- In the place of a bare path of names both renderers put what it comes to. -/
theorem fill_bare (hjsep : ReadsDotPaths jsep) (hlegacy : isLegacyDotPath (trim body) = true)
    (hbare : isBarePath body = true) (h : Shows lower config heap root (trim body) v) :
    renderPath heap (shouldRedact lower config) root body = renderValue (heap.captured v) ∧
      renderCompiled jsep heap (expressionPolicy lower config) root body = renderValue (heap.captured v) := by
  obtain ⟨htrim, hname⟩ := Bool.and_eq_true_iff.mp hbare
  have htrim : trim body = body := of_decide_eq_true htrim
  refine ⟨?_, renderCompiled_of_shows hjsep hlegacy (by rw [htrim]; exact hname) h⟩
  rw [htrim] at h
  exact renderPath_of_shows h

end

/-! ### Scrubbed captures -/

/-- A capture in which every value is one text and the names of dot paths are all
the properties. -/
def scrub {ν : Type} (mark : JsString) (heap : Heap ν) : Heap ν where
  captured v :=
    match heap.captured v with
    | .array | .object => .object
    | _ => .string mark
  property v key := if isLegacyDotSegment key then heap.property v key else none

/-- The texts begin with two units. -/
def HeadsDiffer (s t : JsString) : Prop := ∃ c d, s.head? = some c ∧ t.head? = some d ∧ c ≠ d

/-- Texts that can be told apart where they begin are not made up for by what follows. -/
theorem eq_of_flatten_eq {α : Type} {l : List α} {f g : α → JsString}
    (h : ∀ a ∈ l, f a = g a ∨ HeadsDiffer (f a) (g a)) (heq : (l.map f).flatten = (l.map g).flatten) :
    ∀ a ∈ l, f a = g a := by
  induction l with
  | nil => exact fun a ha => absurd ha List.not_mem_nil
  | cons b l ih =>
    rw [List.map_cons, List.map_cons, List.flatten_cons, List.flatten_cons] at heq
    have hb : f b = g b := by
      rcases h b (List.mem_cons_self ..) with hb | ⟨c, d, hc, hd, hne⟩
      · exact hb
      · have hhead := congrArg List.head? heq
        rw [List.head?_append, List.head?_append, hc, hd] at hhead
        exact absurd (Option.some.inj hhead) hne
    rw [hb] at heq
    have hrest := ih (fun a ha => h a (List.mem_cons_of_mem _ ha)) (List.append_cancel_left heq)
    intro a ha
    rcases List.mem_cons.mp ha with rfl | ha
    · exact hb
    · exact hrest a ha

section

variable {ν : Type} {heap : Heap ν} {mark : JsString} {v : ν}

theorem captured_scrub (current : ν) :
    (scrub mark heap).captured current = .object ∨ (scrub mark heap).captured current = .string mark := by
  cases hkind : heap.captured current with
  | array | object => exact .inl (by simp only [scrub, hkind])
  | truncated | undefined | null | boolean b | number a | notFinite | string s | function =>
    exact .inr (by simp only [scrub, hkind])

theorem followDots_scrub {segments : List JsString} {current : ν}
    (h : followDots heap segments current = ⟨true, false, some v⟩)
    (hlegacy : ∀ segment ∈ segments, isLegacyDotSegment segment = true) :
    followDots (scrub mark heap) segments current = ⟨true, false, some v⟩ := by
  induction segments generalizing current with
  | nil =>
    obtain ⟨rfl, -⟩ := followDots_nil.mp h
    refine followDots_nil.mpr ⟨rfl, ?_⟩
    rcases @captured_scrub ν heap mark v with hkind | hkind
    · rw [hkind]
      exact nofun
    · rw [hkind]
      exact nofun
  | cons segment segments ih =>
    obtain ⟨hkind, next, hnext, hrest⟩ := followDots_cons h
    have hobject : (scrub mark heap).captured current = .object := by
      rcases hkind with hkind | hkind
      · simp only [scrub, hkind]
      · simp only [scrub, hkind]
    have hproperty : (scrub mark heap).property current segment = some next :=
      (if_pos (hlegacy segment (List.mem_cons_self ..))).trans hnext
    rw [followDots, hobject, hproperty]
    exact ih hrest fun s hs => hlegacy s (List.mem_cons_of_mem _ hs)

/-- No other name is a property there. -/
theorem followDots_scrub_missing {segments : List JsString} {segment : JsString} (hmem : segment ∈ segments)
    (hother : isLegacyDotSegment segment = false) (current : ν) :
    followDots (scrub mark heap) segments current = ⟨false, false, none⟩ := by
  induction segments generalizing current with
  | nil => cases hmem
  | cons first segments ih =>
    rw [followDots]
    rcases @captured_scrub ν heap mark current with hkind | hkind
    · rw [hkind]
      rcases hnext : (scrub mark heap).property current first with - | next
      · rfl
      · rcases List.mem_cons.mp hmem with rfl | hmem
        · have hnone : (scrub mark heap).property current segment = none := by
            simp only [scrub, hother, Bool.false_eq_true, if_false]
          rw [hnone] at hnext
          cases hnext
        · exact ih hmem next
    · rw [hkind]

theorem captured_scrub_of_isPlain (h : isPlain (heap.captured v) = true) :
    (scrub mark heap).captured v = .string mark := by
  cases hkind : heap.captured v with
  | null | boolean b | number a | string s => simp only [scrub, hkind]
  | truncated | undefined | notFinite | function | array | object =>
    rw [hkind] at h
    cases h

variable {lower : JsString → JsString} {config : NodeAgent.SerializerConfig} {root : ν}

/-- What may be shown is shown as the mark, unless the mark may not. -/
theorem Shows.scrub {path : JsString} (h : Shows lower config heap root path v)
    (hlegacy : isLegacyDotPath path = true) (hmark : mark ∉ config.redactValues) :
    Shows lower config (scrub mark heap) root path v where
  resolved := by
    obtain ⟨-, hfollow⟩ := resolveDotPath_found h.resolved
    have hresolved := h.resolved
    unfold resolveDotPath at hresolved ⊢
    split at hresolved
    · cases hresolved
    · rename_i hvalid
      rw [if_neg hvalid]
      exact followDots_scrub hfollow fun segment hmem => (segment_of_isLegacyDotPath hlegacy hmem).1
  plain := by
    rw [captured_scrub_of_isPlain h.plain]
    rfl
  visible := by
    rw [captured_scrub_of_isPlain h.plain]
    refine Bool.or_eq_false_iff.mpr ⟨(Bool.or_eq_false_iff.mp h.visible).1, ?_⟩
    exact decide_eq_false hmark

/-- With blanks around it a path comes to nothing there. -/
theorem renderPath_scrub_blanks {body : JsString} (h : trim body ≠ body) (shown : JsString → Captured → Bool) :
    renderPath (NodeCapture.scrub mark heap) shown root body = js "[unavailable]" := by
  obtain ⟨segment, hmem, hother⟩ : ∃ segment ∈ body.splitOn 0x2E, isLegacyDotSegment segment = false := by
    by_contra hall
    refine h (trim_of_segments fun segment hmem => ?_)
    by_contra hother
    exact hall ⟨segment, hmem, Bool.eq_false_iff.mpr hother⟩
  have hresolved : resolveDotPath (NodeCapture.scrub mark heap) root body = ⟨false, false, none⟩ := by
    unfold resolveDotPath
    split
    · rfl
    · exact followDots_scrub_missing hmem hother root
  unfold renderPath
  rw [hresolved]
  rfl

/-! ### What tells a placeholder apart -/

theorem not_mark_of_isDigit {c : UInt16} (h : isDigit c = true) : c ≠ 0x78 ∧ c ≠ 0x5B := by
  constructor
  · rintro rfl
    exact absurd h (by decide)
  · rintro rfl
    exact absurd h (by decide)

/-- A literal is rendered as no mark, and not as what is missing. -/
theorem renderSegment_word {e : CompiledExpression} {value : JsonScalar} (he : e.ast = .literal value)
    (h : IsWord value) :
    ∃ c, (renderSegment heap (expressionPolicy lower config) root (.expression e)).head? = some c ∧
      c ≠ 0x78 ∧ c ≠ 0x5B := by
  have hevaluated : evaluateExpression heap e root (expressionPolicy lower config) =
      safeResult (expressionPolicy lower config) (ofScalar value) := by
    rw [evaluateExpression, he, evaluateNode]
  rw [renderSegment, hevaluated]
  cases h with
  | bool b =>
    cases b with
    | true => exact ⟨0x74, rfl, by decide⟩
    | false => exact ⟨0x66, rfl, by decide⟩
  | null => exact ⟨0x6E, rfl, by decide⟩
  | num q hq =>
    have hsafe : safeResult (expressionPolicy lower config) (ofScalar (.num q)) =
        if (!NodeAgent.isPortableNumber (.ofRat false q)) = true then .error "unsafe-number"
        else .ok (.number (.ofRat false q)) := rfl
    rw [hsafe]
    cases NodeAgent.isPortableNumber (.ofRat false q) with
    | true =>
      obtain ⟨c, hc, hdigit⟩ := Binary64.Double.text_head (a := .ofRat false q) hq
      exact ⟨c, hc, not_mark_of_isDigit hdigit⟩
    | false => exact ⟨0x3C, rfl, by decide⟩

variable {jsep : JsString → Except JsString JsepNode} {body : JsString}

/-- On a scrubbed capture the renderers tell every other placeholder apart. -/
theorem fill_scrub (hjsep : ReadsDotPaths jsep) (hlegacy : isLegacyDotPath (trim body) = true)
    (hcompiled : ∃ e, compileExpression jsep body = .ok e) (hmark : mark.head? = some 0x78)
    (hplain : mark ∉ config.redactValues) (h : Shows lower config heap root (trim body) v)
    (hbare : isBarePath body = false) :
    HeadsDiffer (renderPath (NodeCapture.scrub mark heap) (shouldRedact lower config) root body)
      (renderCompiled jsep (NodeCapture.scrub mark heap) (expressionPolicy lower config) root body) := by
  have hscrub := h.scrub hlegacy hplain
  have hvalue : renderValue ((NodeCapture.scrub mark heap).captured v) = mark := by
    rw [captured_scrub_of_isPlain h.plain]
    rfl
  obtain ⟨e, he⟩ := hcompiled
  by_cases htrim : trim body = body
  · -- no blanks: the value on one side, a literal on the other
    have hname : isNamePath (trim body) = false := by
      unfold isBarePath at hbare
      rw [decide_eq_true htrim, Bool.true_and] at hbare
      rw [htrim]
      exact hbare
    obtain ⟨value, hast, hword⟩ := compileExpression_word hjsep hlegacy hname he
    obtain ⟨c, hc, hx, -⟩ := @renderSegment_word ν (NodeCapture.scrub mark heap) lower config root e value hast hword
    have hlegacyText : renderPath (NodeCapture.scrub mark heap) (shouldRedact lower config) root body = mark := by
      rw [htrim] at hscrub
      rw [renderPath_of_shows hscrub, hvalue]
    refine ⟨0x78, c, ?_, ?_, hx.symm⟩
    · rw [hlegacyText]
      exact hmark
    · rw [renderCompiled, he]
      exact hc
  · rw [renderPath_scrub_blanks htrim]
    cases hname : isNamePath (trim body) with
    | true =>
      rw [renderCompiled_of_shows hjsep hlegacy hname hscrub, hvalue]
      exact ⟨0x5B, 0x78, rfl, hmark, by decide⟩
    | false =>
      obtain ⟨value, hast, hword⟩ := compileExpression_word hjsep hlegacy hname he
      obtain ⟨c, hc, -, hbracket⟩ :=
        @renderSegment_word ν (NodeCapture.scrub mark heap) lower config root e value hast hword
      rw [renderCompiled, he]
      exact ⟨0x5B, c, rfl, hc, hbracket.symm⟩

end

/-- Some run of one unit is no redacted value. -/
theorem exists_mark (redactValues : List JsString) : ∃ mark : JsString, mark.head? = some 0x78 ∧
    mark ∉ redactValues := by
  refine ⟨List.replicate ((redactValues.map List.length).sum + 1) 0x78, rfl, fun hmem => ?_⟩
  have hle := List.single_le_sum (fun _ _ => Nat.zero_le _) _ (List.mem_map_of_mem (f := List.length) hmem)
  rw [List.length_replicate] at hle
  omega

/-! ### The limit -/

theorem firstPoints_eq_self {n : ℕ} {text : JsString} (h : (codePoints text).length ≤ n) :
    firstPoints n text = text := by
  rw [firstPoints, List.take_of_length_le h, units_codePoints]

theorem length_firstPoints_le (n : ℕ) (text : JsString) : (firstPoints n text).length ≤ text.length := by
  have hsplit := congrArg List.length (units_codePoints text)
  rw [← List.take_append_drop n (codePoints text), List.flatMap_append, List.length_append] at hsplit
  exact hsplit ▸ Nat.le_add_right _ _

/-- All that is left is the second half of a surrogate pair. -/
def CutsPair (s t : JsString) : Prop := joins s t ∧ t.length = 1

/-- Below the limit nothing is lost, unless it is reached within a pair. -/
theorem appended_eq {maxLength : ℕ} {texts : List JsString} {rendered : JsString}
    (h : (codePoints (rendered ++ texts.flatten)).length ≤ maxLength)
    (hpair : ∀ before after, texts = before ++ after →
      ¬ CutsPair (rendered ++ before.flatten) after.flatten) :
    appended maxLength rendered texts = rendered ++ texts.flatten := by
  induction texts generalizing rendered with
  | nil => rw [appended, List.flatten_nil, List.append_nil]
  | cons text texts ih =>
    rw [List.flatten_cons, ← List.append_assoc] at h ⊢
    rw [appended]
    split
    · rename_i hfull
      rcases eq_nil_or_joins (h.trans hfull) with hnil | hcut
      · rw [hnil, List.append_nil]
        rw [hnil, List.append_nil] at h
        exact firstPoints_eq_self h
      · refine absurd hcut ?_
        have hfirst := hpair [text] texts rfl
        rw [List.flatten_singleton] at hfirst
        exact hfirst
    · refine ih h fun before after heq => ?_
      have hlater := hpair (text :: before) after (by rw [heq, List.cons_append])
      rw [List.flatten_cons, ← List.append_assoc] at hlater
      exact hlater

theorem appended_of_lt {maxLength : ℕ} {texts : List JsString} {rendered : JsString}
    (h : (codePoints (rendered ++ texts.flatten)).length < maxLength) :
    appended maxLength rendered texts = rendered ++ texts.flatten := by
  induction texts generalizing rendered with
  | nil => rw [appended, List.flatten_nil, List.append_nil]
  | cons text texts ih =>
    rw [List.flatten_cons, ← List.append_assoc] at h ⊢
    have hopen := (length_codePoints_append_le (rendered ++ text) texts.flatten).trans_lt h
    rw [appended, if_neg (not_le.mpr hopen)]
    exact ih h

/-- Once the limit is reached nothing is added. -/
theorem length_appended_le {maxLength : ℕ} {before after : List JsString} {rendered : JsString}
    (hbefore : before ≠ []) (h : maxLength ≤ (codePoints (rendered ++ before.flatten)).length) :
    (appended maxLength rendered (before ++ after)).length ≤ (rendered ++ before.flatten).length := by
  induction before generalizing rendered with
  | nil => exact absurd rfl hbefore
  | cons text before ih =>
    rw [List.flatten_cons, ← List.append_assoc] at h ⊢
    rw [List.cons_append, appended]
    split
    · exact (length_firstPoints_le _ _).trans (List.prefix_append _ _).length_le
    · rename_i hopen
      refine ih ?_ h
      rintro rfl
      rw [List.flatten_nil, List.append_nil] at h
      exact hopen h

/-! ### Agreement -/

section

variable (jsep : JsString → Except JsString JsepNode) (lower : JsString → JsString)
  (config : NodeAgent.SerializerConfig) (template : JsString)

/-- What `renderTemplate` cuts to the limit. -/
def legacyText {ν : Type} (heap : Heap ν) (root : ν) : JsString :=
  replaced template (renderPath heap (shouldRedact lower config) root) 0 (templateMatches template)

/-- What `renderExpressionTemplate` renders without a limit. -/
def segmentsText {ν : Type} (heap : Heap ν) (root : ν) (segments : List TemplateSegment) : JsString :=
  (segments.map (renderSegment heap (expressionPolicy lower config) root)).flatten

/-- The renderings are one text, both within the limit. -/
def SameWithin {ν : Type} (heap : Heap ν) (root : ν) (segments : List TemplateSegment) : Prop :=
  ∀ maxLength, (codePoints (legacyText lower config template heap root)).length ≤ maxLength →
    (codePoints (segmentsText lower config heap root segments)).length ≤ maxLength →
    renderTemplate heap template root maxLength (shouldRedact lower config) =
      renderExpressionTemplate heap segments root maxLength (expressionPolicy lower config)

/-- Compiled placeholder by placeholder, the template is rendered as it is raw,
wherever all its paths come to scalars that may be shown. -/
def Agrees : Prop :=
  ∀ {ν : Type} (heap : Heap ν) (root : ν), ShowsAll lower config heap root template →
    ∃ segments, templateSegments jsep template 0 (templateMatches template) = .ok segments ∧
      SameWithin lower config template heap root segments

/-- What the path of a placeholder comes to, as a text. -/
def valueText {ν : Type} (heap : Heap ν) (root : ν) (body : JsString) : JsString :=
  ((resolveDotPath heap root (trim body)).value.map fun v => renderValue (heap.captured v)).getD []

/-- Some pieces at the end of the template are the second half of a surrogate
pair, and those before them end in the first. -/
def EndsInPair {ν : Type} (heap : Heap ν) (root : ν) : Prop :=
  ∃ before after, pieces template = before ++ after ∧
    CutsPair (before.map (Piece.fill (valueText heap root))).flatten
      (after.map (Piece.fill (valueText heap root))).flatten

end

section

variable {jsep : JsString → Except JsString JsepNode} {lower : JsString → JsString}
  {config : NodeAgent.SerializerConfig} {template : JsString}

theorem map_fill_congr {l : List Piece} {f g : JsString → JsString}
    (h : ∀ body, .hole body ∈ l → f body = g body) : l.map (Piece.fill f) = l.map (Piece.fill g) := by
  refine List.map_congr_left fun piece hmem => ?_
  cases piece with
  | text value => rfl
  | hole body => exact h body hmem

theorem isLegacyDotPath_of_undefined (h : compileTemplate jsep template = .ok none) {body : JsString}
    (hmem : .hole body ∈ pieces template) : isLegacyDotPath (trim body) = true := by
  obtain ⟨index, hfound⟩ := mem_cut.mp hmem
  unfold compileTemplate at h
  dsimp only at h
  split at h
  · rename_i hall
    rcases hall with hnone | hall
    · rw [hnone] at hfound
      cases hfound
    · exact List.all_eq_true.mp hall _ hfound
  · rcases hsegments : templateSegments jsep template 0 (templateMatches template) with message | segments
    · rw [hsegments] at h
      cases h
    · rw [hsegments] at h
      cases h

theorem valueText_of_shows {ν : Type} {heap : Heap ν} {root v : ν} {body : JsString}
    (h : Shows lower config heap root (trim body) v) : valueText heap root body = renderValue (heap.captured v) := by
  rw [valueText, h.resolved]
  rfl

theorem legacyText_eq {ν : Type} (heap : Heap ν) (root : ν) :
    legacyText lower config template heap root =
      ((pieces template).map (Piece.fill (renderPath heap (shouldRedact lower config) root))).flatten :=
  replaced_eq _ _ _ _

theorem segmentsText_eq {ν : Type} (heap : Heap ν) (root : ν) {segments : List TemplateSegment}
    (h : templateSegments jsep template 0 (templateMatches template) = .ok segments) :
    segmentsText lower config heap root segments = ((pieces template).map
      (Piece.fill (renderCompiled jsep heap (expressionPolicy lower config) root))).flatten :=
  congrArg List.flatten (templateSegments_eq_ok h)

/-- A rendering within the limit is not cut. -/
theorem renderTemplate_eq {ν : Type} {heap : Heap ν} {root : ν} {maxLength : ℕ}
    (h : (codePoints (legacyText lower config template heap root)).length ≤ maxLength) :
    renderTemplate heap template root maxLength (shouldRedact lower config) =
      legacyText lower config template heap root := if_pos h

/-- Where no limit is reached the renderers give their texts whole. -/
theorem SameWithin.text_eq {ν : Type} {heap : Heap ν} {root : ν} {segments : List TemplateSegment}
    (h : SameWithin lower config template heap root segments) :
    legacyText lower config template heap root = segmentsText lower config heap root segments := by
  have hlegacy := length_codePoints_le (legacyText lower config template heap root)
  have hsegments := length_codePoints_le (segmentsText lower config heap root segments)
  have hequal := h ((legacyText lower config template heap root).length +
    (segmentsText lower config heap root segments).length + 1) (by omega) (by omega)
  rw [renderTemplate_eq (by omega)] at hequal
  refine hequal.trans (appended_of_lt ?_)
  show (codePoints (segmentsText lower config heap root segments)).length < _
  omega

/-- Only bare paths of names are rendered alike on every capture. -/
theorem isBarePath_of_agrees (hjsep : ReadsDotPaths jsep) (hundefined : compileTemplate jsep template = .ok none)
    (h : Agrees jsep lower config template) {ν : Type} {heap : Heap ν} {root : ν}
    (hshows : ShowsAll lower config heap root template) {body : JsString}
    (hmem : .hole body ∈ pieces template) : isBarePath body = true := by
  obtain ⟨mark, hhead, hplain⟩ := exists_mark config.redactValues
  have hscrubbed : ShowsAll lower config (scrub mark heap) root template := fun other hother => by
    obtain ⟨v, hv⟩ := hshows other hother
    exact ⟨v, hv.scrub (isLegacyDotPath_of_undefined hundefined hother) hplain⟩
  obtain ⟨segments, hsegments, hequal⟩ := h (scrub mark heap) root hscrubbed
  have htexts := hequal.text_eq
  rw [legacyText_eq, segmentsText_eq _ _ hsegments] at htexts
  have hcompiled : ∀ other, .hole other ∈ pieces template → ∃ e, compileExpression jsep other = .ok e :=
    fun other hother => by
      obtain ⟨index, hfound⟩ := mem_cut.mp hother
      exact compiled_of_templateSegments hsegments hfound
  -- pieces that are not rendered alike are told apart where they begin
  have hpieces : ∀ piece ∈ pieces template,
      Piece.fill (renderPath (scrub mark heap) (shouldRedact lower config) root) piece =
          Piece.fill (renderCompiled jsep (scrub mark heap) (expressionPolicy lower config) root) piece ∨
        HeadsDiffer (Piece.fill (renderPath (scrub mark heap) (shouldRedact lower config) root) piece)
          (Piece.fill (renderCompiled jsep (scrub mark heap) (expressionPolicy lower config) root) piece) := by
    intro piece hpiece
    cases piece with
    | text value => exact .inl rfl
    | hole other =>
      obtain ⟨v, hv⟩ := hshows other hpiece
      have hlegacy := isLegacyDotPath_of_undefined hundefined hpiece
      cases hbare : isBarePath other with
      | true =>
        obtain ⟨hraw, hcooked⟩ := fill_bare hjsep hlegacy hbare (hv.scrub hlegacy hplain)
        exact .inl (hraw.trans hcooked.symm)
      | false => exact .inr (fill_scrub hjsep hlegacy (hcompiled other hpiece) hhead hplain hv hbare)
  by_contra hother
  obtain ⟨v, hv⟩ := hshows body hmem
  obtain ⟨c, d, hc, hd, hne⟩ := fill_scrub hjsep (isLegacyDotPath_of_undefined hundefined hmem)
    (hcompiled body hmem) hhead hplain hv (Bool.eq_false_iff.mpr hother)
  have hsame := eq_of_flatten_eq hpieces htexts (.hole body) hmem
  rw [show renderPath (scrub mark heap) (shouldRedact lower config) root body =
    renderCompiled jsep (scrub mark heap) (expressionPolicy lower config) root body from hsame, hd] at hc
  exact hne (Option.some.inj hc).symm

/-- Both renderers put the values of the paths in the places of bare paths. -/
theorem fill_values (hjsep : ReadsDotPaths jsep) (hundefined : compileTemplate jsep template = .ok none)
    {ν : Type} {heap : Heap ν} {root : ν} (hshows : ShowsAll lower config heap root template)
    (hbare : ∀ body, .hole body ∈ pieces template → isBarePath body = true) :
    (pieces template).map (Piece.fill (renderPath heap (shouldRedact lower config) root)) =
        (pieces template).map (Piece.fill (valueText heap root)) ∧
      (pieces template).map (Piece.fill (renderCompiled jsep heap (expressionPolicy lower config) root)) =
        (pieces template).map (Piece.fill (valueText heap root)) := by
  constructor
  · refine map_fill_congr fun body hmem => ?_
    obtain ⟨v, hv⟩ := hshows body hmem
    have hlegacy := isLegacyDotPath_of_undefined hundefined hmem
    rw [valueText_of_shows hv]
    exact (fill_bare hjsep hlegacy (hbare body hmem) hv).1
  · refine map_fill_congr fun body hmem => ?_
    obtain ⟨v, hv⟩ := hshows body hmem
    have hlegacy := isLegacyDotPath_of_undefined hundefined hmem
    rw [valueText_of_shows hv]
    exact (fill_bare hjsep hlegacy (hbare body hmem) hv).2

theorem templateSegments_of_bare (hjsep : ReadsDotPaths jsep)
    (hundefined : compileTemplate jsep template = .ok none) {ν : Type} {heap : Heap ν} {root : ν}
    (hshows : ShowsAll lower config heap root template)
    (hbare : ∀ body, .hole body ∈ pieces template → isBarePath body = true) :
    ∃ segments, templateSegments jsep template 0 (templateMatches template) = .ok segments := by
  refine templateSegments_of_compiled fun index body hfound => ?_
  have hmem : .hole body ∈ pieces template := mem_cut.mpr ⟨index, hfound⟩
  obtain ⟨v, hv⟩ := hshows body hmem
  obtain ⟨htrim, hname⟩ := Bool.and_eq_true_iff.mp (hbare body hmem)
  refine ⟨_, compileExpression_names hjsep (isLegacyDotPath_of_undefined hundefined hmem)
    (resolveDotPath_found hv.resolved).1 ?_⟩
  rw [show trim body = body from of_decide_eq_true htrim]
  exact hname

/-- On a capture that has its paths, a template of bare paths is rendered alike
exactly when no pieces at its end are the second half of a pair. -/
theorem sameWithin_iff (hjsep : ReadsDotPaths jsep) (hundefined : compileTemplate jsep template = .ok none)
    {ν : Type} {heap : Heap ν} {root : ν} (hshows : ShowsAll lower config heap root template)
    (hbare : ∀ body, .hole body ∈ pieces template → isBarePath body = true) {segments : List TemplateSegment}
    (hsegments : templateSegments jsep template 0 (templateMatches template) = .ok segments) :
    SameWithin lower config template heap root segments ↔ ¬ EndsInPair template heap root := by
  obtain ⟨hraw, hcooked⟩ := fill_values hjsep hundefined hshows hbare
  constructor
  · -- a rendering that reaches its limit within a pair loses the second half
    rintro hequal ⟨before, after, hsplit, hcut⟩
    -- the text before the cut, and the whole
    obtain ⟨head, hhead⟩ : ∃ head, head = before.map (Piece.fill (valueText heap root)) := ⟨_, rfl⟩
    obtain ⟨last, hlast⟩ : ∃ last, last = after.map (Piece.fill (valueText heap root)) := ⟨_, rfl⟩
    rw [← hhead, ← hlast] at hcut
    have hpieces : (pieces template).map (Piece.fill (valueText heap root)) = head ++ last := by
      rw [hsplit, List.map_append, hhead, hlast]
    have hlegacy : legacyText lower config template heap root = head.flatten ++ last.flatten := by
      rw [legacyText_eq, hraw, hpieces, List.flatten_append]
    have htext : segmentsText lower config heap root segments = head.flatten ++ last.flatten := by
      rw [segmentsText_eq _ _ hsegments, hcooked, hpieces, List.flatten_append]
    obtain ⟨hjoins, hlength⟩ := hcut
    have hcount : (codePoints (head.flatten ++ last.flatten)).length = (codePoints head.flatten).length := by
      obtain ⟨d, rest, hd, hsum⟩ := length_codePoints_joined hjoins
      rw [hd, List.length_cons] at hlength
      rw [List.length_eq_zero_iff.mp (Nat.succ.inj hlength)] at hsum
      exact hsum
    have hsame := hequal (codePoints head.flatten).length (by rw [hlegacy, hcount]) (by rw [htext, hcount])
    rw [renderTemplate_eq (by rw [hlegacy, hcount]), hlegacy] at hsame
    have hnonempty : head ≠ [] := by
      rintro rfl
      obtain ⟨c, -, hc, -⟩ := hjoins
      cases hc
    have hshort := @length_appended_le (codePoints head.flatten).length head last [] hnonempty le_rfl
    have hrendered : renderExpressionTemplate heap segments root (codePoints head.flatten).length
        (expressionPolicy lower config) = appended (codePoints head.flatten).length [] (head ++ last) := by
      rw [← hpieces, ← hcooked]
      exact congrArg (appended _ []) (templateSegments_eq_ok hsegments)
    rw [← hrendered, ← hsame, List.length_append, hlength, List.nil_append] at hshort
    omega
  · intro hpair maxLength hlegacy hlimit
    rw [renderTemplate_eq hlegacy, legacyText_eq, hraw]
    rw [segmentsText_eq _ _ hsegments, hcooked] at hlimit
    show _ = appended maxLength [] (segments.map (renderSegment heap (expressionPolicy lower config) root))
    rw [templateSegments_eq_ok hsegments]
    show _ = appended maxLength [] ((pieces template).map
      (Piece.fill (renderCompiled jsep heap (expressionPolicy lower config) root)))
    rw [hcooked]
    refine (@appended_eq maxLength _ [] hlimit fun before after heq hcut => hpair ?_).symm
    obtain ⟨first, last, hpieces, rfl, rfl⟩ := List.map_eq_append_iff.mp heq
    exact ⟨first, last, hpieces, hcut⟩

end

namespace Sample

/-- jsep on paths of names; no other text is read. -/
def jsepOfPaths (source : JsString) : Except JsString JsepNode :=
  match source.splitOn 0x2E with
  | head :: tail =>
    if (head :: tail).all isName then .ok (memberChain (word head) tail) else .error (js "Unexpected character")
  | [] => .error (js "Unexpected character")

theorem jsepOfPaths_reads : ReadsDotPaths jsepOfPaths where
  names path head tail hsplit hnames := by
    unfold jsepOfPaths
    rw [hsplit]
    exact if_pos (List.all_eq_true.mpr hnames)
  numerals path node _ hnames h := by
    unfold jsepOfPaths at h
    rcases hsplit : path.splitOn 0x2E with - | ⟨head, tail⟩
    · exact absurd hsplit (List.splitOn_ne_nil 0x2E path)
    · rw [hsplit] at h hnames
      simp only [hnames, Bool.false_eq_true, if_false] at h
      cases h

/-- An agent without extra patterns. -/
def config : NodeAgent.SerializerConfig := NodeAgent.normalizeSerializerConfig toLowerCase [] []

/-- `{ user: "ada" }`; the object is `true`. -/
def capture : Heap Bool where
  captured v := if v then .object else .string (js "ada")
  property v key := if v ∧ key = js "user" then some false else none

end Sample

end NodeCapture
