/-
LiveProbe/CreateAtomicity.lean

What a failed `createProbe` leaves behind.

The version of the service is raised before the definition is parsed, so a
request is undone unless that schema admits every definition that gets so far.
For a request that its own schema put out, the definition fails in three ways
only (`isSome_probeDefinitionSchema`): a property name of white space, a
template of more than 201 segments, a version beyond the safe integers.
-/
import LiveProbe.StoredExpressions
import LiveProbe.View

open JsString Schema Expression

/-! ### Expressions the schema admits -/

/-- No name of an expression is white space alone. -/
def CompiledExpression.Visible (e : CompiledExpression) : Prop := ∀ name ∈ names e.ast, trim name ≠ []

/-- What `compileExpression` may return. -/
structure CompiledExpression.Emitted (e : CompiledExpression) : Prop where
  nonempty : 1 ≤ e.source.length
  short : e.source.length ≤ 4096
  within : ∃ count, Within e.ast 0 0 count

namespace Expression

variable {jsep : JsString → Except JsString JsepNode}

theorem compileExpression_emitted {source : JsString} {e : CompiledExpression}
    (h : compileExpression jsep source = .ok e) : e.Emitted := by
  have hsource := compileExpression_source h
  have hbounds : ¬ ((trim source).length = 0 ∨ (trim source).length > maxSourceLength) := by
    intro hout
    unfold compileExpression at h
    simp only [if_pos hout] at h
    cases h
  rw [not_or] at hbounds
  refine ⟨?_, ?_, compileExpression_within h⟩
  · rw [hsource]
    exact Nat.pos_of_ne_zero hbounds.1
  · rw [hsource]
    exact Nat.not_lt.mp hbounds.2

end Expression

namespace Protocol

theorem isSome_expressionPathSegmentSchema {segment : PathSegment}
    (h : NodeAgent.validPathSegment segment = true) :
    (expressionPathSegmentSchema segment).isSome = true ↔ ∀ name ∈ segmentNames [segment], trim name ≠ [] := by
  cases segment with
  | name s =>
    simp only [NodeAgent.validPathSegment, Bool.and_eq_true, decide_eq_true_eq] at h
    have hlong : (trim s).length ≤ 256 := by
      have := length_trim_le s
      omega
    show ((trimmed 1 256 s).map PathSegment.name).isSome = true ↔ ∀ name ∈ [s], trim name ≠ []
    rw [Option.isSome_map, isSome_trimmed, List.forall_mem_singleton, ← List.length_pos_iff]
    exact and_iff_left hlong
  | index n =>
    have hn : nonnegativeInt n = some n := nonnegativeInt_eq_some.mpr ⟨of_decide_eq_true h, rfl⟩
    show ((nonnegativeInt n).map PathSegment.index).isSome = true ↔ _
    rw [hn]
    exact iff_of_true rfl fun _ hmem => absurd hmem List.not_mem_nil

theorem mem_segmentNames {name : JsString} {path : List PathSegment} :
    name ∈ segmentNames path ↔ ∃ segment ∈ path, name ∈ segmentNames [segment] := by
  induction path with
  | nil => exact iff_of_false List.not_mem_nil fun ⟨_, h, _⟩ => List.not_mem_nil h
  | cons segment path ih =>
    have hcons : name ∈ segmentNames (segment :: path) ↔
        name ∈ segmentNames [segment] ∨ name ∈ segmentNames path := by
      cases segment with
      | name s =>
        show name ∈ s :: segmentNames path ↔ name ∈ [s] ∨ _
        rw [List.mem_cons, List.mem_singleton]
      | index n => exact (or_iff_right List.not_mem_nil).symm
    rw [hcons, ih, List.exists_mem_cons_iff]

theorem isSome_expressionNodeSchema {node : ExpressionNode} {nodes depth count : ℕ}
    (h : Within node nodes depth count) :
    (expressionNodeSchema node).isSome = true ↔ ∀ name ∈ names node, trim name ≠ [] := by
  induction h with
  | literal hnodes hdepth hscalar =>
    refine iff_of_true ?_ fun _ hmem => absurd hmem List.not_mem_nil
    show ((jsonScalarSchema _).map ExpressionNode.literal).isSome = true
    rw [Option.isSome_map, jsonScalarSchema, isSome_refine]
    split
    · exact hscalar _ rfl
    · rfl
  | @reference path _ _ hnodes hdepth hpath =>
    show ((boundedArray expressionPathSegmentSchema 1 64 path).map ExpressionNode.reference).isSome = true ↔
      ∀ name ∈ segmentNames path, trim name ≠ []
    rw [Option.isSome_map, isSome_boundedArray,
      and_iff_left ⟨List.length_pos_of_ne_nil hpath.nonempty, hpath.short⟩]
    constructor
    · intro h name hname
      obtain ⟨segment, hsegment, hname⟩ := mem_segmentNames.mp hname
      exact (isSome_expressionPathSegmentSchema (hpath.segments segment hsegment)).mp (h segment hsegment) name hname
    · intro h segment hsegment
      apply (isSome_expressionPathSegmentSchema (hpath.segments segment hsegment)).mpr
      intro name hname
      exact h name (mem_segmentNames.mpr ⟨segment, hsegment, hname⟩)
  | @unary operator operand _ _ _ _ _ _ ih =>
    show ((expressionNodeSchema operand).map (ExpressionNode.unary operator)).isSome = true ↔ _
    rw [Option.isSome_map]
    exact ih
  | @binary operator left right _ _ _ _ _ _ _ _ ihl ihr =>
    rw [names, List.forall_mem_append, ← ihl, ← ihr, expressionNodeSchema]
    rcases expressionNodeSchema left with - | l
    · exact iff_of_false Bool.false_ne_true fun h => Bool.false_ne_true h.1
    · rcases expressionNodeSchema right with - | r
      · exact iff_of_false Bool.false_ne_true fun h => Bool.false_ne_true h.2
      · exact iff_of_true rfl ⟨rfl, rfl⟩

theorem isSome_compiledExpressionSchema {e : CompiledExpression} (h : e.Emitted) :
    (compiledExpressionSchema e).isSome = true ↔ e.Visible := by
  obtain ⟨count, hwithin⟩ := h.within
  have hsource : text 1 4096 e.source = some e.source := by
    rw [text, refine_self, decide_eq_true_eq]
    exact ⟨h.nonempty, h.short⟩
  rw [CompiledExpression.Visible, ← isSome_expressionNodeSchema hwithin, compiledExpressionSchema, hsource]
  rcases expressionNodeSchema e.ast with - | ast
  · exact iff_of_false Bool.false_ne_true Bool.false_ne_true
  · exact iff_of_true rfl rfl

end Protocol

/-! ### Templates -/

namespace Expression

variable {jsep : JsString → Except JsString JsepNode}

theorem templateSegments_emitted {template : JsString} {cursor : ℕ} {found : List (ℕ × JsString)}
    {segments : List TemplateSegment} (h : templateSegments jsep template cursor found = .ok segments) :
    ∀ e ∈ templateExpressions segments, e.Emitted := by
  induction found generalizing cursor segments with
  | nil =>
    rw [templateSegments] at h
    cases h
    split
    · exact fun _ hmem => absurd hmem List.not_mem_nil
    · exact fun _ hmem => absurd hmem List.not_mem_nil
  | cons m found ih =>
    obtain ⟨index, body⟩ := m
    rw [templateSegments] at h
    obtain ⟨e, he, h⟩ := Outcome.bind_eq_ok.mp h
    obtain ⟨tail, htail, h⟩ := Outcome.bind_eq_ok.mp h
    cases h
    have hall : ∀ e' ∈ e :: templateExpressions tail, e'.Emitted :=
      List.forall_mem_cons.mpr ⟨compileExpression_emitted he, ih htail⟩
    split
    · exact hall
    · exact hall

/-- No segment is longer than the template. -/
theorem length_text_le {segments : List TemplateSegment} {raws : List JsString} {template value : JsString}
    (h : restored segments raws = some template) (hmem : .text value ∈ segments) :
    value.length ≤ template.length := by
  induction segments generalizing raws template with
  | nil => exact absurd hmem List.not_mem_nil
  | cons segment segments ih =>
    cases segment with
    | text first =>
      rw [restored] at h
      obtain ⟨rest, hrest, rfl⟩ := Option.map_eq_some_iff.mp h
      rw [List.length_append]
      rcases List.mem_cons.mp hmem with heq | hmem
      · cases heq
        omega
      · have := ih hrest hmem
        omega
    | expression e =>
      cases raws with
      | nil => cases h
      | cons raw raws =>
        rw [restored] at h
        obtain ⟨rest, hrest, rfl⟩ := Option.map_eq_some_iff.mp h
        rw [List.length_append]
        rcases List.mem_cons.mp hmem with heq | hmem
        · cases heq
        · have := ih hrest hmem
          omega

/-- What is known of the segments of a template of at most 16384 units. -/
theorem compileTemplate_emitted {template : JsString} {segments : List TemplateSegment}
    (h : compileTemplate jsep template = .ok (some segments)) (hshort : template.length ≤ 16384) :
    (∀ e ∈ templateExpressions segments, e.Emitted) ∧ ∀ value, .text value ∈ segments → value.length ≤ 16384 := by
  have hsegments := compileTemplate_eq_some h
  have hlossless := @templateSegments_lossless jsep [] template segments hsegments
  refine ⟨templateSegments_emitted hsegments, ?_⟩
  intro value hmem
  exact (length_text_le hlossless.restored hmem).trans hshort

end Expression

namespace Protocol

theorem isSome_templateSegments {segments : List TemplateSegment}
    (hexpressions : ∀ e ∈ templateExpressions segments, e.Emitted)
    (htexts : ∀ value, .text value ∈ segments → value.length ≤ 16384) :
    (boundedArray templateSegmentSchema 0 201 segments).isSome = true ↔
      (∀ e ∈ templateExpressions segments, e.Visible) ∧ segments.length ≤ 201 := by
  rw [isSome_boundedArray, and_iff_right (Nat.zero_le _)]
  apply and_congr_left
  intro hcount
  clear hcount
  induction segments with
  | nil => exact iff_of_true (fun _ h => absurd h List.not_mem_nil) fun _ h => absurd h List.not_mem_nil
  | cons segment segments ih =>
    have hrest : ∀ value, .text value ∈ segments → value.length ≤ 16384 :=
      fun value hmem => htexts value (List.mem_cons_of_mem _ hmem)
    rw [List.forall_mem_cons]
    cases segment with
    | text value =>
      rw [ih hexpressions hrest]
      apply and_iff_right
      have hvalue : text 0 16384 value = some value := by
        rw [text, refine_self, decide_eq_true_eq]
        exact ⟨Nat.zero_le _, htexts value List.mem_cons_self⟩
      show ((text 0 16384 value).map TemplateSegment.text).isSome = true
      rw [hvalue]
      rfl
    | expression e =>
      have hboth := List.forall_mem_cons.mp hexpressions
      rw [ih hboth.2 hrest]
      show ((compiledExpressionSchema e).map TemplateSegment.expression).isSome = true ∧ _ ↔
        ∀ e' ∈ e :: templateExpressions segments, e'.Visible
      rw [Option.isSome_map, isSome_compiledExpressionSchema hboth.1, List.forall_mem_cons]

end Protocol

/-! ### Definitions -/

namespace Broker

variable {jsep : JsString → Except JsString JsepNode}

theorem invalidExpression_eq_ok {α : Type} {x : Except JsString α} {a : α} (h : invalidExpression x = .ok a) :
    x = .ok a := by
  cases x with
  | ok b =>
    cases h
    rfl
  | error message => cases h

theorem compileOptional_emitted {source : Option JsString} {e : Option CompiledExpression}
    (h : compileOptional jsep source = .ok e) : ∀ x ∈ e, x.Emitted := by
  cases source with
  | none =>
    cases h
    exact fun _ hmem => absurd hmem (Option.not_mem_none _)
  | some source =>
    rcases hx : Expression.compileExpression jsep source with message | x
    · simp only [compileOptional, hx] at h
      cases h
    · simp only [compileOptional, hx] at h
      cases h
      intro y hy
      cases hy
      exact compileExpression_emitted hx

theorem mapM_emitted {sources : List JsString} {l : List CompiledExpression}
    (h : sources.mapM (Expression.compileExpression jsep) = .ok l) :
    (∀ e ∈ l, e.Emitted) ∧ l.length = sources.length := by
  refine ⟨fun e he => ?_, Outcome.length_of_mapM h⟩
  obtain ⟨i, hi⟩ := List.getElem?_of_mem he
  obtain ⟨source, -, hsource⟩ := Outcome.getElem?_mapM h hi
  exact compileExpression_emitted hsource

/-- As many expressions as sources, each one of the compiler's. -/
theorem compileList_emitted {sources : Option (List JsString)} {l : Option (List CompiledExpression)}
    (h : compileList jsep sources = .ok l) :
    ∀ x ∈ l, (∀ e ∈ x, e.Emitted) ∧ ∃ y ∈ sources, x.length = y.length := by
  cases sources with
  | none =>
    cases h
    exact fun _ hmem => absurd hmem (Option.not_mem_none _)
  | some sources =>
    rcases hx : sources.mapM (Expression.compileExpression jsep) with message | x
    · simp only [compileList, hx] at h
      cases h
    · simp only [compileList, hx] at h
      cases h
      intro y hy
      cases hy
      obtain ⟨hall, hlength⟩ := mapM_emitted hx
      exact ⟨hall, sources, rfl, hlength⟩

end Broker

/-- How many template segments a definition has. -/
def DefinitionBody.segmentCount : DefinitionBody → ℕ
  | .log _ _ templateSegments => (templateSegments.getD []).length
  | _ => 0

namespace Protocol

variable {jsep : JsString → Except JsString JsepNode}

/-- What follows a field that cannot fail does not matter. -/
theorem isSome_bind_of {α β : Type} {x : Option α} {f : α → Option β} (hf : ∀ a, (f a).isSome = true) :
    (x.bind f).isSome = true ↔ x.isSome = true := by
  cases x with
  | none => exact Iff.rfl
  | some a => exact iff_of_true (hf a) rfl

theorem isSome_watchExpressions {sources : Option (List JsString)} {l : Option (List CompiledExpression)}
    (hinput : optional (boundedArray (trimmed 1 4096) 0 100) sources = some sources)
    (h : Broker.compileList jsep sources = .ok l) :
    (optional (boundedArray compiledExpressionSchema 0 100) l).isSome = true ↔
      ∀ e ∈ l.getD [], e.Visible := by
  have hemitted := Broker.compileList_emitted h
  cases l with
  | none => exact iff_of_true rfl fun _ h => absurd h List.not_mem_nil
  | some x =>
    obtain ⟨hall, y, hy, hlength⟩ := hemitted x rfl
    have hbound := boundedArray_self.mp (optional_self.mp hinput y hy)
    have hcount : 0 ≤ x.length ∧ x.length ≤ 100 := ⟨Nat.zero_le _, hlength ▸ hbound.2.2⟩
    show ((boundedArray compiledExpressionSchema 0 100 x).map some).isSome = true ↔ ∀ e ∈ x, e.Visible
    rw [Option.isSome_map, isSome_boundedArray, and_iff_left hcount]
    exact forall₂_congr fun e he => isSome_compiledExpressionSchema (hall e he)

theorem isSome_optionalExpression {e : Option CompiledExpression} (h : ∀ x ∈ e, x.Emitted) :
    (optional compiledExpressionSchema e).isSome = true ↔ ∀ x ∈ e.toList, x.Visible := by
  rw [isSome_optional]
  constructor
  · intro hsome x hx
    exact (isSome_compiledExpressionSchema (h x (Option.mem_toList.mp hx))).mp (hsome x (Option.mem_toList.mp hx))
  · intro hvisible x hx
    exact (isSome_compiledExpressionSchema (h x hx)).mpr (hvisible x (Option.mem_toList.mpr hx))

theorem isSome_definitionBodySchema {input : InputBody} {body : DefinitionBody}
    (hinput : inputBodySchema input = some input) (h : Broker.compileBody jsep input = .ok body) :
    (definitionBodySchema body).isSome = true ↔
      (∀ e ∈ body.expressions, e.Visible) ∧ body.segmentCount ≤ 201 := by
  cases input with
  | snapshot watchPaths watchExpressions includeStackLocals stackFrameLimit =>
    obtain ⟨paths, hpaths, hinput⟩ := Option.bind_eq_some_iff.mp hinput
    obtain ⟨watches, hwatches, hinput⟩ := Option.bind_eq_some_iff.mp hinput
    obtain ⟨limit, hlimit, hinput⟩ := Option.bind_eq_some_iff.mp hinput
    cases hinput
    obtain ⟨compiled, hcompiled, h⟩ := Outcome.bind_eq_ok.mp h
    cases h
    rw [definitionBodySchema, hpaths, Option.bind_eq_bind, Option.bind_some]
    refine ((isSome_bind_of fun _ => ?_).trans (isSome_watchExpressions hwatches hcompiled)).trans
      (and_iff_left (Nat.zero_le 201)).symm
    rw [hlimit]
    rfl
  | log template logLevel =>
    obtain ⟨_, htext, hinput⟩ := Option.bind_eq_some_iff.mp hinput
    cases hinput
    obtain ⟨segments, hsegments, h⟩ := Outcome.bind_eq_ok.mp h
    cases h
    have hsegments := Broker.invalidExpression_eq_ok hsegments
    rw [definitionBodySchema, htext, Option.bind_eq_bind, Option.bind_some]
    refine (isSome_bind_of fun _ => rfl).trans ?_
    cases segments with
    | none => exact iff_of_true rfl ⟨fun _ hmem => absurd hmem List.not_mem_nil, Nat.zero_le _⟩
    | some segments =>
      rw [text, refine_self, decide_eq_true_eq] at htext
      obtain ⟨hemitted, htexts⟩ := compileTemplate_emitted hsegments htext.2
      show ((boundedArray templateSegmentSchema 0 201 segments).map some).isSome = true ↔ _
      rw [Option.isSome_map]
      exact isSome_templateSegments hemitted htexts
  | counter =>
    cases h
    exact iff_of_true rfl ⟨fun _ hmem => absurd hmem List.not_mem_nil, Nat.zero_le _⟩
  | metric metricPath metricExpression =>
    obtain ⟨path, hpath, hinput⟩ := Option.bind_eq_some_iff.mp hinput
    obtain ⟨metric, hmetric, hinput⟩ := Option.bind_eq_some_iff.mp hinput
    cases hinput
    obtain ⟨compiled, hcompiled, rfl⟩ : ∃ compiled,
        Broker.compileOptional jsep metricExpression = .ok compiled ∧ body = .metric metricPath compiled := by
      simp only [Broker.compileBody, bind, Except.bind, pure, Except.pure] at h
      split at h
      · cases h
      · split at h
        · cases h
        · next compiled hcompiled =>
          cases h
          exact ⟨compiled, hcompiled, rfl⟩
    rw [definitionBodySchema, hpath, Option.bind_eq_bind, Option.bind_some]
    refine ((isSome_bind_of fun _ => rfl).trans ?_).trans (and_iff_left (Nat.zero_le 201)).symm
    exact isSome_optionalExpression (Broker.compileOptional_emitted hcompiled)

theorem isSome_compiledInputSchema {input : CreateProbeInput} {c : CompiledInput}
    (hinput : createProbeInputSchema input = some input) (h : Broker.compileProbeInput jsep input = .ok c) :
    (compiledInputSchema c).isSome = true ↔ (∀ e ∈ c.expressions, e.Visible) ∧ c.body.segmentCount ≤ 201 := by
  obtain ⟨conditionExpression, body, hcondition, hbody, rfl⟩ := Broker.compileProbeInput_eq_ok h
  simp only [createProbeInputSchema, Option.bind_eq_bind, Option.bind_eq_some_iff, Option.pure_def,
    Option.some.injEq] at hinput
  obtain ⟨_, hserviceId, _, hsourceCommit, _, hfile, _, hline, _, hcond, _, -, _, httl, _, hcreatedBy, _, hlimit,
    _, hinputBody, rfl⟩ := hinput
  dsimp only at hserviceId hsourceCommit hfile hline hcond httl hcreatedBy hlimit hinputBody hcondition hbody
  have hexpression := isSome_optionalExpression (Broker.compileOptional_emitted hcondition)
  have hdefinition := isSome_definitionBodySchema hinputBody hbody
  simp only [compiledInputSchema, hserviceId, hsourceCommit, hfile, hline, hcond, httl, hcreatedBy, hlimit,
    Option.bind_eq_bind, Option.bind_some, CompiledInput.expressions, List.forall_mem_append]
  rw [← hexpression, and_assoc, ← hdefinition]
  rcases optional compiledExpressionSchema conditionExpression with - | e
  · exact iff_of_false Bool.false_ne_true fun h => Bool.false_ne_true h.1
  · rcases definitionBodySchema body with - | b
    · exact iff_of_false Bool.false_ne_true fun h => Bool.false_ne_true h.2
    · exact iff_of_true rfl ⟨rfl, rfl⟩

/-- A definition of a version whose expressions and segments the schema admits. -/
structure Storable (c : CompiledInput) (version : ℕ) : Prop where
  visible : ∀ e ∈ c.expressions, e.Visible
  segments : c.body.segmentCount ≤ 201
  version : version ≤ maxSafeInteger

/-- **The definition of a valid request is admitted unless a name is blank, the
segments are too many or the version is too large.** -/
theorem isSome_probeDefinitionSchema {input : CreateProbeInput} {c : CompiledInput} {id : JsString}
    {version : ℕ} (hinput : createProbeInputSchema input = some input)
    (h : Broker.compileProbeInput jsep input = .ok c) (hid : isProbeId id = true) (hversion : 1 ≤ version) :
    (probeDefinitionSchema (BrokerState.newDefinition c id version)).isSome = true ↔ Storable c version := by
  have hcompiled := isSome_compiledInputSchema hinput h
  have hprobeId : probeIdSchema id = some id := refine_self.mpr hid
  show (compiledInputSchema c >>= fun compiled => probeIdSchema id >>= fun id =>
    positiveInt version >>= fun version => some
      { toCompiledInput := compiled, id, version, runtimeLocation := none, runtimeLine := none,
        runtimeColumn := none : ProbeDefinition }).isSome = true ↔ _
  rcases hc : compiledInputSchema c with - | compiled
  · rw [hc] at hcompiled
    exact iff_of_false nofun fun h => nomatch hcompiled.mpr ⟨h.visible, h.segments⟩
  · rw [hc] at hcompiled
    obtain ⟨hvisible, hsegments⟩ := hcompiled.mp rfl
    rw [hprobeId]
    rcases hv : positiveInt version with - | v
    · refine iff_of_false nofun fun h => ?_
      rw [positiveInt_eq_some.mpr ⟨⟨hversion, h.version⟩, rfl⟩] at hv
      cases hv
    · exact iff_of_true rfl ⟨hvisible, hsegments, (positiveInt_eq_some.mp hv).1.2⟩

end Protocol

/-! ### The failed request -/

namespace BrokerState

open Broker

variable {cfg : Config} {now : ℕ} {draws : ℕ → JsString} {input : CreateProbeInput} {scope : ResourceScope}
  {s : BrokerState}

/-- What agents and pollers can tell two states apart by. -/
structure SameProbes (s t : BrokerState) : Prop where
  probes : t.probes = s.probes
  events : t.events = s.events
  statuses : t.statuses = s.statuses
  serviceVersions : t.serviceVersions = s.serviceVersions
  nativeAssignmentVersions : t.nativeAssignmentVersions = s.nativeAssignmentVersions

theorem sameProbes_refresh (serviceId : JsString) :
    SameProbes s (s.refreshServiceCapabilities now scope serviceId) := by
  unfold refreshServiceCapabilities
  split
  · exact ⟨rfl, rfl, rfl, rfl, rfl⟩
  · exact ⟨rfl, rfl, rfl, rfl, rfl⟩

theorem serviceVersion_refresh (serviceId : JsString) :
    (s.refreshServiceCapabilities now scope serviceId).serviceVersion scope serviceId =
      s.serviceVersion scope serviceId := by
  rw [serviceVersion, (sameProbes_refresh serviceId).serviceVersions, serviceVersion]

/-- A drawn version shows. -/
theorem not_sameProbes_versioned : ¬ SameProbes s (s.versioned now input scope) := by
  intro h
  have hversion : (s.versioned now input scope).serviceVersion scope input.serviceId =
      s.serviceVersion scope input.serviceId := by
    rw [serviceVersion, h.serviceVersions, serviceVersion]
  rw [versioned, serviceVersion_increment, if_pos ⟨rfl, rfl⟩, serviceVersion_refresh] at hversion
  omega

/-- **A request that fails is undone, unless it fails after its version was drawn.** -/
theorem createProbe_atomic_iff (hinput : Protocol.createProbeInputSchema input = some input) :
    (∀ e, (s.createProbe cfg now draws input scope).2 = .error e →
        SameProbes s (s.createProbe cfg now draws input scope).1) ↔
      ∀ c id, s.ReachesSchema cfg now draws input scope c id →
        Protocol.Storable c (s.serviceVersion scope input.serviceId + 1) := by
  by_cases hreaches : ∃ c id, s.ReachesSchema cfg now draws input scope c id
  · obtain ⟨c, id, hreaches⟩ := hreaches
    have hadmitted : (Protocol.probeDefinitionSchema
        (newDefinition c id (s.serviceVersion scope input.serviceId + 1))).isSome = true ↔
        Protocol.Storable c (s.serviceVersion scope input.serviceId + 1) :=
      Protocol.isSome_probeDefinitionSchema hinput hreaches.compiles hreaches.wellFormed (Nat.le_add_left 1 _)
    have hdefinition : s.drawnDefinition now input scope c id =
        newDefinition c id (s.serviceVersion scope input.serviceId + 1) := by
      rw [drawnDefinition, serviceVersion_refresh]
    rw [createProbe_of_reaches hreaches, hdefinition]
    constructor
    · intro h c' id' hreaches'
      obtain rfl : c' = c := Except.ok.inj (hreaches'.compiles.symm.trans hreaches.compiles)
      by_contra hstorable
      rw [← hadmitted, Option.not_isSome_iff_eq_none] at hstorable
      rw [hstorable] at h
      exact not_sameProbes_versioned (h _ rfl)
    · intro h e he
      obtain ⟨probe, hprobe⟩ := Option.isSome_iff_exists.mp (hadmitted.mpr (h c id hreaches))
      rw [hprobe] at he
      cases he
  · refine iff_of_true ?_ fun c id h => absurd ⟨c, id, h⟩ hreaches
    intro e _
    obtain ⟨_, heq | heq⟩ := createProbe_of_not_reaches hreaches
    · rw [heq]
      exact ⟨rfl, rfl, rfl, rfl, rfl⟩
    · rw [heq]
      exact sameProbes_refresh input.serviceId

end BrokerState

/-! ### A blank property -/

namespace Sample

open BrokerState

theorem metricOf_valid : ∀ name ∈ [js "x", js " "],
    Protocol.createProbeInputSchema (metricOf name) = some (metricOf name) := by
  decide

theorem property_atomic :
    (∀ e, (capable.createProbe propertyConfig 1 (draw '1') (metricOf (js "x")) scope).2 = .error e →
      SameProbes capable (capable.createProbe propertyConfig 1 (draw '1') (metricOf (js "x")) scope).1) ↔
      ∀ c id, capable.ReachesSchema propertyConfig 1 (draw '1') (metricOf (js "x")) scope c id →
        Protocol.Storable c (capable.serviceVersion scope (metricOf (js "x")).serviceId + 1) :=
  createProbe_atomic_iff (metricOf_valid _ List.mem_cons_self)

/-- The version is drawn, the definition is refused. -/
theorem blank_refused :
    (capable.createProbe propertyConfig 1 (draw '1') (metricOf (js " ")) scope).2 = .error .invalid ∧
      (capable.createProbe propertyConfig 1 (draw '1') (metricOf (js " ")) scope).1.serviceVersion scope
        (js "api") = 1 ∧ capable.serviceVersion scope (js "api") = 0 := by
  decide

theorem blank_versioned :
    ¬ ∀ (cfg : Config) (now : ℕ) (draws : ℕ → JsString) (input : CreateProbeInput) (scope : ResourceScope)
      (s : BrokerState), Protocol.createProbeInputSchema input = some input →
      ∀ e, (s.createProbe cfg now draws input scope).2 = .error e →
        SameProbes s (s.createProbe cfg now draws input scope).1 := by
  intro h
  obtain ⟨herror, hafter, hbefore⟩ := blank_refused
  have hsame := h propertyConfig 1 (draw '1') _ scope capable
    (metricOf_valid _ (List.mem_cons_of_mem _ List.mem_cons_self)) _ herror
  rw [BrokerState.serviceVersion, hsame.serviceVersions, ← BrokerState.serviceVersion, hbefore] at hafter
  cases hafter

end Sample
