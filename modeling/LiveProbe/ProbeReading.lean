/-
LiveProbe/ProbeReading.lean

What a Node agent reads of an active set.

`parseProbe` checks every definition of a poll's answer, and one that it refuses
fails the whole poll.  The schemas of the broker leave little to refuse: all the
agent asks for holds of a stored definition but for one thing.  The definition's
schema trims the property names that the compiler has let through, and a trimmed
name may be one that the agents forbid.  So a set is read exactly when no
expression in it has such a name (`located_read_iff`).
-/
import LiveProbe.CreateAtomicity
import LiveProbe.NodeProbes
import LiveProbe.Process

open JsString Schema Expression

/-! ### The checks of the agent -/

namespace NodeAgent

def isCompiledExpression (e : CompiledExpression) : Bool :=
  0 < e.source.length && e.source.length ≤ 4096 && (validateNode e.ast 0 0).isSome

def isTemplateSegment : TemplateSegment → Bool
  | .text value => value.length ≤ 16384
  | .expression e => isCompiledExpression e

/-- A safe integer above 0. -/
def isPositive (n : ℕ) : Bool := 0 < n && n ≤ maxSafeInteger

/-- The checks of `parseProbe` on the fields of every probe. -/
def admitsCommon (serviceId : JsString) (p : ProbeDefinition) : Bool :=
  0 < p.id.length && p.serviceId = serviceId && 0 < p.file.length && isPositive p.line && isPositive p.hitLimit &&
    isPositive p.ttlSeconds && isPositive p.version && 0 < p.createdBy.length

/-- The checks on the fields that depend on the type. -/
def admitsBody : DefinitionBody → Bool
  | .snapshot _ watchExpressions _ stackFrameLimit =>
    (watchExpressions.getD []).all isCompiledExpression && (1 ≤ stackFrameLimit && stackFrameLimit ≤ 8)
  | .log _ _ templateSegments => (templateSegments.getD []).all isTemplateSegment
  | .counter => true
  | .metric metricPath metricExpression =>
    metricPath.all (0 < ·.length) && metricExpression.all isCompiledExpression &&
      metricPath.isNone != metricExpression.isNone

/-- The runtime coordinates are given together. -/
def admitsRuntime (p : ProbeDefinition) : Bool :=
  (p.runtimeLocation.isNone && p.runtimeLine.isNone && p.runtimeColumn.isNone) ||
    (p.runtimeLocation.any (0 < ·.length) && p.runtimeLine.any isPositive && p.runtimeColumn.any (· ≤ maxSafeInteger))

def captureFields : DefinitionBody → PauseCapture.ProbeDefinition
  | .snapshot watchPaths watchExpressions includeStackLocals stackFrameLimit =>
    { watchPaths := watchPaths.getD [], watchExpressions := watchExpressions.getD [], includeStackLocals
      stackFrameLimit := some stackFrameLimit }
  | .log template _ templateSegments => { template := some template, templateSegments := templateSegments.getD [] }
  | .counter => {}
  | .metric metricPath metricExpression => { metricPath, metricExpression }

/-- `parseProbe` on a definition of the broker, whose types leave nothing of
`parseCondition` to check; `fingerprint` is the JSON text of the result. -/
def parseProbe (fingerprint : ProbeDefinition → JsString) (serviceId : JsString) (p : ProbeDefinition) :
    Option NodeProbes.ProbeDefinition :=
  if admitsCommon serviceId p && p.conditionExpression.all isCompiledExpression && admitsBody p.body && admitsRuntime p then
    some
      { toPlaced := ⟨p.id, p.file, p.line, fingerprint p⟩
        toCapture := { captureFields p.body with
          condition := p.condition
          conditionExpression := p.conditionExpression }
        type := p.type
        hitLimit := p.hitLimit
        runtimeLocation := p.runtimeLocation
        runtimeLine := p.runtimeLine
        runtimeColumn := p.runtimeColumn }
  else none

end NodeAgent

/-! ### Trimmed names -/

namespace Expression

theorem segmentNames_trim (path : List PathSegment) :
    segmentNames (path.map trimSegment) = (segmentNames path).map trim := by
  induction path with
  | nil => rfl
  | cons segment path ih =>
    cases segment with
    | name s => exact congrArg (trim s :: ·) ih
    | index n => exact ih

theorem names_trimNames (node : ExpressionNode) : names (trimNames node) = (names node).map trim := by
  induction node with
  | literal value => rfl
  | reference path => exact segmentNames_trim path
  | unary operator operand ih => exact ih
  | binary operator left right ihl ihr =>
    show names (trimNames left) ++ names (trimNames right) = (names left ++ names right).map trim
    rw [ihl, ihr, List.map_append]

theorem validPathSegment_trim {segment : PathSegment} (h : NodeAgent.validPathSegment segment = true)
    (hname : ∀ name ∈ segmentNames [segment], trim name ≠ [] ∧ trim name ∉ forbiddenSegments) :
    NodeAgent.validPathSegment (trimSegment segment) = true := by
  cases segment with
  | name s =>
    obtain ⟨hvisible, hallowed⟩ := hname s List.mem_cons_self
    simp only [NodeAgent.validPathSegment, Bool.and_eq_true, decide_eq_true_eq] at h
    simp only [trimSegment, NodeAgent.validPathSegment, Bool.and_eq_true, decide_eq_true_eq]
    exact ⟨⟨List.length_pos_iff.mpr hvisible, (length_trim_le s).trans h.1.2⟩, hallowed⟩
  | index n => exact h

variable {node : ExpressionNode} {nodes depth count : ℕ}

/-- Trimming keeps a node within the limits unless a name becomes one that is forbidden. -/
theorem Within.trimNames (h : Within node nodes depth count)
    (hnames : ∀ name ∈ names node, trim name ≠ [] ∧ trim name ∉ forbiddenSegments) :
    Within (trimNames node) nodes depth count := by
  induction h with
  | literal hnodes hdepth hscalar => exact .literal hnodes hdepth hscalar
  | reference hnodes hdepth hpath =>
    refine .reference hnodes hdepth ⟨?_, ?_, fun trimmed htrimmed => ?_⟩
    · exact fun hnil => hpath.nonempty (List.map_eq_nil_iff.mp hnil)
    · rw [List.length_map]
      exact hpath.short
    · obtain ⟨segment, hsegment, rfl⟩ := List.mem_map.mp htrimmed
      refine validPathSegment_trim (hpath.segments _ hsegment) fun name hname => hnames name ?_
      exact Protocol.mem_segmentNames.mpr ⟨_, hsegment, hname⟩
  | unary operator hnodes hdepth _ ih => exact .unary operator hnodes hdepth (ih hnames)
  | binary operator hnodes hdepth _ _ ihl ihr =>
    obtain ⟨hleft, hright⟩ := List.forall_mem_append.mp hnames
    exact .binary operator hnodes hdepth (ihl hleft) (ihr hright)

/-- A node that the agent admits has no forbidden name. -/
theorem allowed_of_validateNode (h : NodeAgent.validateNode node nodes depth = some count) :
    ∀ name ∈ names node, name ∉ forbiddenSegments := by
  induction node generalizing nodes depth count with
  | literal value => exact List.forall_mem_nil _
  | reference path =>
    intro name hname
    obtain ⟨segment, hsegment, hname⟩ := Protocol.mem_segmentNames.mp hname
    rw [NodeAgent.validateNode] at h
    split at h
    · cases h
    · split at h
      · rename_i hpath
        have hvalid := List.all_eq_true.mp hpath.2.2 segment hsegment
        cases segment with
        | name s =>
          obtain rfl := List.mem_singleton.mp hname
          simp only [NodeAgent.validPathSegment, Bool.and_eq_true, decide_eq_true_eq] at hvalid
          exact hvalid.2
        | index n => exact absurd hname List.not_mem_nil
      · cases h
  | unary operator operand ih =>
    rw [NodeAgent.validateNode] at h
    split at h
    · cases h
    · exact ih h
  | binary operator left right ihl ihr =>
    rw [NodeAgent.validateNode] at h
    split at h
    · cases h
    · obtain ⟨middle, hleft, hright⟩ := Option.bind_eq_some_iff.mp h
      exact List.forall_mem_append.mpr ⟨ihl hleft, ihr hright⟩

end Expression

/-- No name of an expression is one that the agents forbid. -/
def CompiledExpression.Allowed (e : CompiledExpression) : Prop := ∀ name ∈ names e.ast, name ∉ forbiddenSegments

/-- What a definition's schema may leave of a compiled expression. -/
def CompiledExpression.Stored (e : CompiledExpression) : Prop :=
  ∃ compiled : CompiledExpression, compiled.Emitted ∧ compiled.Visible ∧ e = compiled.trimNames

theorem CompiledExpression.Stored.read_iff {e : CompiledExpression} (h : e.Stored) :
    NodeAgent.isCompiledExpression e = true ↔ e.Allowed := by
  obtain ⟨compiled, hemitted, hvisible, rfl⟩ := h
  unfold NodeAgent.isCompiledExpression
  rw [Bool.and_eq_true, Bool.and_eq_true, decide_eq_true_eq, decide_eq_true_eq]
  refine (and_iff_right ⟨hemitted.nonempty, hemitted.short⟩).trans ⟨fun hread => ?_, fun hallowed => ?_⟩
  · obtain ⟨count, hcount⟩ := Option.isSome_iff_exists.mp hread
    exact allowed_of_validateNode hcount
  · obtain ⟨count, hwithin⟩ := hemitted.within
    have htrimmed : Within (Expression.trimNames compiled.ast) 0 0 count := by
      refine hwithin.trimNames fun name hname => ⟨hvisible name hname, hallowed _ ?_⟩
      show trim name ∈ names (Expression.trimNames compiled.ast)
      rw [names_trimNames]
      exact List.mem_map_of_mem hname
    exact Option.isSome_iff_exists.mpr ⟨count, htrimmed.validateNode⟩

/-! ### Stored definitions -/

namespace Broker

variable {jsep : JsString → Except JsString JsepNode}

theorem compileOptional_isNone {source : Option JsString} {e : Option CompiledExpression}
    (h : compileOptional jsep source = .ok e) : e.isNone = source.isNone := by
  cases source with
  | none =>
    cases h
    rfl
  | some source =>
    rcases hx : compileExpression jsep source with message | x
    · simp only [compileOptional, hx] at h
      cases h
    · simp only [compileOptional, hx] at h
      cases h
      rfl

/-- A metric is compiled when it has exactly one source of its value. -/
theorem compileBody_metric {metricPath metricExpression : Option JsString} {body : DefinitionBody}
    (h : compileBody jsep (.metric metricPath metricExpression) = .ok body) :
    ∃ compiled, compileOptional jsep metricExpression = .ok compiled ∧ body = .metric metricPath compiled ∧
      metricPath.isNone ≠ compiled.isNone := by
  simp only [compileBody, bind, Except.bind, pure, Except.pure] at h
  split at h
  · cases h
  · rename_i hsources
    split at h
    · cases h
    · rename_i compiled hcompiled
      cases h
      refine ⟨compiled, hcompiled, rfl, ?_⟩
      rw [compileOptional_isNone hcompiled]
      exact hsources

theorem metric_of_compileBody {input : InputBody} {path : Option JsString} {e : Option CompiledExpression}
    (h : compileBody jsep input = .ok (.metric path e)) : path.isNone ≠ e.isNone := by
  cases input with
  | snapshot watchPaths watchExpressions includeStackLocals stackFrameLimit =>
    obtain ⟨_, -, h⟩ := Outcome.bind_eq_ok.mp h
    cases h
  | log template logLevel =>
    obtain ⟨_, -, h⟩ := Outcome.bind_eq_ok.mp h
    cases h
  | counter => cases h
  | metric metricPath metricExpression =>
    obtain ⟨compiled, -, heq, hsources⟩ := compileBody_metric h
    cases heq
    exact hsources

theorem compileBody_emitted {input : InputBody} {body : DefinitionBody}
    (hinput : Protocol.inputBodySchema input = some input) (h : compileBody jsep input = .ok body) :
    ∀ e ∈ body.expressions, e.Emitted := by
  cases input with
  | snapshot watchPaths watchExpressions includeStackLocals stackFrameLimit =>
    obtain ⟨compiled, hcompiled, h⟩ := Outcome.bind_eq_ok.mp h
    cases h
    intro e he
    cases compiled with
    | none => exact absurd he List.not_mem_nil
    | some l => exact (compileList_emitted hcompiled l rfl).1 e he
  | log template logLevel =>
    obtain ⟨_, htext, hinput⟩ := Option.bind_eq_some_iff.mp hinput
    cases hinput
    obtain ⟨segments, hsegments, h⟩ := Outcome.bind_eq_ok.mp h
    cases h
    rw [text, refine_self, decide_eq_true_eq] at htext
    intro e he
    cases segments with
    | none => exact absurd he List.not_mem_nil
    | some l => exact (compileTemplate_emitted (invalidExpression_eq_ok hsegments) htext.2).1 e he
  | counter =>
    cases h
    exact List.forall_mem_nil _
  | metric metricPath metricExpression =>
    obtain ⟨compiled, hcompiled, rfl, -⟩ := compileBody_metric h
    exact fun e he => compileOptional_emitted hcompiled e (Option.mem_toList.mp he)

end Broker

namespace Protocol

theorem optional_isNone {α : Type} {s : Schema α} {a b : Option α} (h : optional s a = some b) : b.isNone = a.isNone := by
  rcases optional_eq_some.mp h with ⟨rfl, rfl⟩ | ⟨_, _, rfl, -, rfl⟩ <;> rfl

/-- The schema leaves a metric its source. -/
theorem definitionBodySchema_metric {body : DefinitionBody} {path : Option JsString} {e : Option CompiledExpression}
    (h : definitionBodySchema body = some (.metric path e)) :
    ∃ path' e', body = .metric path' e' ∧ path.isNone = path'.isNone ∧ e.isNone = e'.isNone := by
  cases body with
  | snapshot watchPaths watchExpressions includeStackLocals stackFrameLimit =>
    obtain ⟨_, -, h⟩ := Option.bind_eq_some_iff.mp h
    obtain ⟨_, -, h⟩ := Option.bind_eq_some_iff.mp h
    obtain ⟨_, -, h⟩ := Option.bind_eq_some_iff.mp h
    cases h
  | log template logLevel templateSegments =>
    obtain ⟨_, -, h⟩ := Option.bind_eq_some_iff.mp h
    obtain ⟨_, -, h⟩ := Option.bind_eq_some_iff.mp h
    cases h
  | counter => cases h
  | metric path' e' =>
    obtain ⟨_, hpath, h⟩ := Option.bind_eq_some_iff.mp h
    obtain ⟨_, he, h⟩ := Option.bind_eq_some_iff.mp h
    cases h
    exact ⟨path', e', rfl, optional_isNone hpath, optional_isNone he⟩

theorem compiledInputSchema_eq_some {c stored : CompiledInput} (h : compiledInputSchema c = some stored) :
    serviceIdSchema c.serviceId = some stored.serviceId ∧ sourceFileSchema c.file = some stored.file ∧
      positiveInt c.line = some stored.line ∧ positiveInt c.ttlSeconds = some stored.ttlSeconds ∧
      createdBySchema c.createdBy = some stored.createdBy ∧ positiveInt c.hitLimit = some stored.hitLimit ∧
      definitionBodySchema c.body = some stored.body := by
  simp only [compiledInputSchema, Option.bind_eq_bind, Option.bind_eq_some_iff, Option.pure_def,
    Option.some.injEq] at h
  obtain ⟨_, hserviceId, _, -, _, hfile, _, hline, _, -, _, -, _, httl, _, hcreatedBy, _, hlimit, _, hbody, rfl⟩ := h
  exact ⟨hserviceId, hfile, hline, httl, hcreatedBy, hlimit, hbody⟩

theorem probeDefinitionSchema_eq_some {definition p : ProbeDefinition} (h : probeDefinitionSchema definition = some p) :
    compiledInputSchema definition.toCompiledInput = some p.toCompiledInput ∧ probeIdSchema definition.id = some p.id ∧
      positiveInt definition.version = some p.version ∧
      optional sourceFileSchema definition.runtimeLocation = some p.runtimeLocation ∧
      optional positiveInt definition.runtimeLine = some p.runtimeLine ∧
      optional nonnegativeInt definition.runtimeColumn = some p.runtimeColumn := by
  simp only [probeDefinitionSchema, Option.bind_eq_bind, Option.bind_eq_some_iff, Option.pure_def,
    Option.some.injEq] at h
  obtain ⟨_, hcompiled, _, hid, _, hversion, _, hlocation, _, hline, _, hcolumn, rfl⟩ := h
  exact ⟨hcompiled, hid, hversion, hlocation, hline, hcolumn⟩

end Protocol

/-- What is known of a definition that is stored or sent. -/
structure ProbeDefinition.Sendable (p : ProbeDefinition) : Prop where
  parsed : Protocol.probeDefinitionSchema p = some p
  expressions : ∀ e ∈ p.expressions, e.Stored
  metric : ∀ path e, p.body = .metric path e → path.isNone ≠ e.isNone
  runtime : p.runtimeLocation.isNone = p.runtimeLine.isNone ∧ p.runtimeLine.isNone = p.runtimeColumn.isNone

namespace ProbeDefinition.Sendable

open Broker BrokerState Protocol

variable {cfg : Config} {p q : ProbeDefinition}

/-- A definition that a request has come to. -/
theorem of_created {input : CreateProbeInput} {compiled : CompiledInput} {id : JsString} {version : ℕ}
    (hinput : createProbeInputSchema input = some input) (hcompiled : compileProbeInput cfg.jsep input = .ok compiled)
    (h : probeDefinitionSchema (newDefinition compiled id version) = some p) : p.Sendable := by
  obtain ⟨hstored, -, -, hlocation, hline, hcolumn⟩ := probeDefinitionSchema_eq_some h
  obtain ⟨hcondition, hbody⟩ := probeDefinitionSchema_expressions h
  obtain ⟨hvisible, -⟩ := (isSome_compiledInputSchema hinput hcompiled).mp (Option.isSome_of_mem hstored)
  obtain ⟨conditionExpression, body, hconditionOf, hbodyOf, rfl⟩ := compileProbeInput_eq_ok hcompiled
  have hinputBody : inputBodySchema input.body = some input.body := by
    simp only [createProbeInputSchema, Option.bind_eq_bind, Option.bind_eq_some_iff, Option.pure_def,
      Option.some.injEq] at hinput
    obtain ⟨_, -, _, -, _, -, _, -, _, -, _, -, _, -, _, -, _, -, _, hinputBody, rfl⟩ := hinput
    exact hinputBody
  refine ⟨stable_probeDefinitionSchema h, fun e he => ?_, fun path e hp => ?_, ?_⟩
  · have hemitted : ∀ e ∈ conditionExpression.toList ++ body.expressions, e.Emitted :=
      List.forall_mem_append.mpr ⟨fun e he => compileOptional_emitted hconditionOf e (Option.mem_toList.mp he),
        compileBody_emitted hinputBody hbodyOf⟩
    have hall : p.expressions = (conditionExpression.toList ++ body.expressions).map CompiledExpression.trimNames := by
      show p.conditionExpression.toList ++ p.body.expressions = _
      rw [hcondition, hbody, List.map_append]
      congr 1
      show (conditionExpression.map _).toList = _
      cases conditionExpression <;> rfl
    rw [hall] at he
    obtain ⟨compiled, hmem, rfl⟩ := List.mem_map.mp he
    exact ⟨compiled, hemitted compiled hmem, hvisible compiled hmem, rfl⟩
  · have hstoredBody : definitionBodySchema body = some p.body := (compiledInputSchema_eq_some hstored).2.2.2.2.2.2
    rw [hp] at hstoredBody
    obtain ⟨path', e', hbody', hpath, he⟩ := definitionBodySchema_metric hstoredBody
    rw [hpath, he]
    exact metric_of_compileBody (hbody' ▸ hbodyOf)
  · rw [optional_isNone hlocation, optional_isNone hline, optional_isNone hcolumn]
    exact ⟨rfl, rfl⟩

/-- The coordinates of a source map change nothing else. -/
theorem located (h : p.Sendable) {maps : Option (List StoredSourceMap)} (hq : withRuntimeLocation cfg maps p = .ok q) :
    q.Sendable ∧ q.serviceId = p.serviceId := by
  unfold withRuntimeLocation at hq
  split at hq
  · cases hq
    exact ⟨h, rfl⟩
  · split at hq
    · cases hq
      exact ⟨h, rfl⟩
    · split at hq
      · cases hq
      · rename_i l _ q' hparsed
        cases hq
        obtain ⟨hcompiled, -, -, hlocation, hline, hcolumn⟩ := probeDefinitionSchema_eq_some hparsed
        have hsame : q.toCompiledInput = p.toCompiledInput :=
          (Option.some.inj ((probeDefinitionSchema_eq_some h.parsed).1.symm.trans hcompiled)).symm
        have hexpressions : q.expressions = p.expressions := congrArg CompiledInput.expressions hsame
        have hbody : q.body = p.body := congrArg CompiledInput.body hsame
        refine ⟨⟨stable_probeDefinitionSchema hparsed, hexpressions ▸ h.expressions, hbody ▸ h.metric, ?_⟩,
          congrArg CompiledInput.serviceId hsame⟩
        rw [optional_isNone hlocation, optional_isNone hline, optional_isNone hcolumn]
        exact ⟨rfl, rfl⟩

end ProbeDefinition.Sendable

/-! ### What is read -/

namespace NodeAgent

open Protocol

variable {p : ProbeDefinition}

theorem isPositive_of_schema {n m : ℕ} (h : positiveInt n = some m) : isPositive m = true := by
  obtain ⟨hn, rfl⟩ := positiveInt_eq_some.mp h
  rw [isPositive, Bool.and_eq_true, decide_eq_true_eq, decide_eq_true_eq]
  exact hn

theorem length_pos_of_trimmed {hi : ℕ} {s t : JsString} (h : trimmed 1 hi s = some t) : 0 < t.length := by
  have hbounds := (preprocess_eq_some.mp h).1
  rw [decide_eq_true_eq] at hbounds
  exact hbounds.1

theorem admitsCommon_of_parsed (h : probeDefinitionSchema p = some p) : admitsCommon p.serviceId p = true := by
  obtain ⟨hcompiled, hid, hversion, -⟩ := probeDefinitionSchema_eq_some h
  obtain ⟨-, hfile, hline, httl, hcreatedBy, hlimit, -⟩ := compiledInputSchema_eq_some hcompiled
  have hnamed : 0 < p.id.length := by
    refine List.length_pos_iff.mpr fun hnil => ?_
    have hprobeId : isProbeId p.id = true := refine_self.mp hid
    rw [hnil] at hprobeId
    cases hprobeId
  simp only [admitsCommon, Bool.and_eq_true, decide_eq_true_eq]
  exact ⟨⟨⟨⟨⟨⟨⟨hnamed, trivial⟩, length_pos_of_trimmed hfile⟩, isPositive_of_schema hline⟩, isPositive_of_schema hlimit⟩,
    isPositive_of_schema httl⟩, isPositive_of_schema hversion⟩, length_pos_of_trimmed hcreatedBy⟩

theorem admitsRuntime_of_parsed (h : probeDefinitionSchema p = some p)
    (hruntime : p.runtimeLocation.isNone = p.runtimeLine.isNone ∧ p.runtimeLine.isNone = p.runtimeColumn.isNone) :
    admitsRuntime p = true := by
  obtain ⟨-, -, -, hlocation, hline, hcolumn⟩ := probeDefinitionSchema_eq_some h
  unfold admitsRuntime
  rcases optional_eq_some.mp hlocation with ⟨hnone, -⟩ | ⟨_, location, -, hlocation, hsome⟩
  · rw [hnone] at hruntime ⊢
    rw [← hruntime.2, ← hruntime.1]
    rfl
  · rw [hsome] at hruntime ⊢
    rcases optional_eq_some.mp hline with ⟨hnone, -⟩ | ⟨_, line, -, hline, hsome⟩
    · rw [hnone] at hruntime
      cases hruntime.1
    · rw [hsome] at hruntime ⊢
      rcases optional_eq_some.mp hcolumn with ⟨hnone, -⟩ | ⟨_, column, -, hcolumn, hsome⟩
      · rw [hnone] at hruntime
        cases hruntime.2
      · rw [hsome]
        refine Bool.or_eq_true_iff.mpr (.inr ?_)
        rw [Bool.and_eq_true, Bool.and_eq_true]
        obtain ⟨hsafe, rfl⟩ := nonnegativeInt_eq_some.mp hcolumn
        exact ⟨⟨decide_eq_true (length_pos_of_trimmed hlocation), isPositive_of_schema hline⟩, decide_eq_true hsafe⟩

theorem all_isTemplateSegment {segments : List TemplateSegment}
    (h : ∀ segment ∈ segments, templateSegmentSchema segment = some segment) :
    segments.all isTemplateSegment = true ↔ ∀ e ∈ templateExpressions segments, isCompiledExpression e = true := by
  induction segments with
  | nil => exact iff_of_true rfl (List.forall_mem_nil _)
  | cons segment segments ih =>
    obtain ⟨hfirst, hrest⟩ := List.forall_mem_cons.mp h
    rw [List.all_cons, Bool.and_eq_true, ih hrest]
    cases segment with
    | text value =>
      refine and_iff_right (decide_eq_true ?_)
      obtain ⟨_, htext, heq⟩ := Option.map_eq_some_iff.mp hfirst
      cases heq
      rw [text, refine_self, decide_eq_true_eq] at htext
      exact htext.2
    | expression e => exact (List.forall_mem_cons (p := fun e => isCompiledExpression e = true)).symm

theorem all_isCompiledExpression (o : Option CompiledExpression) :
    o.all isCompiledExpression = true ↔ ∀ e ∈ o.toList, isCompiledExpression e = true := by
  cases o with
  | none => exact iff_of_true rfl (List.forall_mem_nil _)
  | some e => exact (List.forall_mem_singleton (p := fun e => isCompiledExpression e = true)).symm

/-- Of the fields that depend on the type only the expressions can be refused. -/
theorem admitsBody_iff {body : DefinitionBody} (h : definitionBodySchema body = some body)
    (hmetric : ∀ path e, body = .metric path e → path.isNone ≠ e.isNone) :
    admitsBody body = true ↔ ∀ e ∈ body.expressions, isCompiledExpression e = true := by
  cases body with
  | snapshot watchPaths watchExpressions includeStackLocals stackFrameLimit =>
    obtain ⟨_, -, h⟩ := Option.bind_eq_some_iff.mp h
    obtain ⟨_, -, h⟩ := Option.bind_eq_some_iff.mp h
    obtain ⟨_, hlimit, h⟩ := Option.bind_eq_some_iff.mp h
    cases h
    obtain ⟨hlimit, -⟩ := intBetween_eq_some.mp hlimit
    rw [admitsBody, Bool.and_eq_true, List.all_eq_true]
    refine and_iff_left ?_
    rw [Bool.and_eq_true, decide_eq_true_eq, decide_eq_true_eq]
    exact ⟨hlimit.1, hlimit.2.1⟩
  | log template logLevel templateSegments =>
    obtain ⟨_, -, h⟩ := Option.bind_eq_some_iff.mp h
    obtain ⟨_, hsegments, h⟩ := Option.bind_eq_some_iff.mp h
    cases h
    refine all_isTemplateSegment ?_
    cases templateSegments with
    | none => exact List.forall_mem_nil _
    | some segments => exact (boundedArray_self.mp (optional_self.mp hsegments segments rfl)).1
  | counter => exact iff_of_true rfl (List.forall_mem_nil _)
  | metric path e =>
    obtain ⟨_, hpath, h⟩ := Option.bind_eq_some_iff.mp h
    obtain ⟨_, -, h⟩ := Option.bind_eq_some_iff.mp h
    cases h
    have hnonempty : path.all (0 < ·.length) = true := by
      cases path with
      | none => rfl
      | some path =>
        have hpath : trimmedWith 1 1024 isDotPath path = some path := optional_self.mp hpath path rfl
        have hbounds := (preprocess_eq_some.mp hpath).1
        rw [Bool.and_eq_true, decide_eq_true_eq] at hbounds
        exact decide_eq_true hbounds.1.1
    have hsources : (path.isNone != e.isNone) = true := bne_iff_ne.mpr (hmetric path e rfl)
    rw [admitsBody, hnonempty, hsources, Bool.and_true, Bool.true_and]
    exact all_isCompiledExpression e

/-- **A definition is read unless a name in it is forbidden.** -/
theorem isSome_parseProbe (fingerprint : ProbeDefinition → JsString) (h : p.Sendable) :
    (parseProbe fingerprint p.serviceId p).isSome = true ↔ ∀ e ∈ p.expressions, e.Allowed := by
  have hbody := admitsBody_iff (compiledInputSchema_eq_some (probeDefinitionSchema_eq_some h.parsed).1).2.2.2.2.2.2 h.metric
  have hchecks : (parseProbe fingerprint p.serviceId p).isSome = true ↔
      p.conditionExpression.all isCompiledExpression = true ∧ admitsBody p.body = true := by
    unfold parseProbe
    rw [admitsCommon_of_parsed h.parsed, admitsRuntime_of_parsed h.parsed h.runtime, Bool.true_and, Bool.and_true,
      ← Bool.and_eq_true]
    split
    · rename_i hall
      exact iff_of_true rfl hall
    · rename_i hall
      exact iff_of_false Bool.false_ne_true hall
  rw [hchecks, all_isCompiledExpression, hbody, ← List.forall_mem_append]
  exact forall₂_congr fun e he => (h.expressions e he).read_iff

end NodeAgent

/-! ### The probes of a process -/

namespace BrokerState

variable {cfg : Config} {now : ℕ} {scope : ResourceScope} {r : Request} {s t : BrokerState}

/-- Every stored definition is one that can be sent. -/
def AllSendable (s : BrokerState) : Prop := s.probes.All fun _ p => p.probe.Sendable

theorem AllSendable.expireDueProbes (h : s.AllSendable) : (s.expireDueProbes cfg now).AllSendable :=
  expireDueProbes_induction h fun _ e ht he hdue => by
    rw [AllSendable, probes_expireProbe, if_pos hdue]
    exact ht.set (ht e.1 e.2 (JsMap.get?_eq_some_iff.mpr he))

theorem AllSendable.change (h : s.AllSendable) (hv : r.Valid) (hc : Change cfg now scope r s t) : t.AllSendable := by
  rcases probes_change hc with heq | rfl | ⟨draws, input, compiled, id, probe, rfl, hcompiled, -, hparsed, rfl⟩ |
    ⟨id, stored, -, -, -, heq⟩
  · rwa [AllSendable, heq]
  · exact h.expireDueProbes
  · exact JsMap.All.set (m := s.probes) h (ProbeDefinition.Sendable.of_created hv hcompiled hparsed)
  · rw [AllSendable, heq]
    exact JsMap.All.delete h id

theorem AllSendable.handle (h : s.AllSendable) (hv : r.Valid) : (s.handle cfg now scope r).1.AllSendable := by
  have hchanges := handle_changes cfg now scope r s
  generalize (s.handle cfg now scope r).1 = t at hchanges ⊢
  induction hchanges with
  | refl => exact h
  | tail _ hc ih => exact ih.change hv hc

theorem AllSendable.loadSnapshot (h : s.AllSendable) (hi : Indexed s) {b : BrokerSnapshot} {n : ℕ}
    (hb : s.snapshot n = some b) (t : BrokerState) : (t.loadSnapshot cfg now b).1.AllSendable := by
  rw [loadSnapshot_of_snapshot hb]
  have hprobes : (t.refill cfg b).probes = s.probes := congrArg Prod.fst (core_refill cfg t hi hb)
  have hrefilled : (t.refill cfg b).AllSendable := by
    rw [AllSendable, hprobes]
    exact h
  exact hrefilled.expireDueProbes

theorem sendable_of_reached {p : Process} (h : Reached (Process.next cfg) (fun _ e => Process.Valid e) {} p) :
    p.state.AllSendable := by
  refine (Process.invariant_since (I := fun s => Indexed s ∧ s.AllSendable) ⟨.init, .empty⟩ ?_ ?_ ?_ h).2
  · exact fun p now scope r ⟨hi, hs⟩ hv => ⟨hi.handle hv, hs.handle hv⟩
  · exact fun p now ⟨hi, hs⟩ _ => ⟨hi.expireDueProbes, hs.expireDueProbes⟩
  · intro p e now _ _ s t b n ⟨hi, hs⟩ hb
    refine ⟨?_, hs.loadSnapshot hi hb t⟩
    rw [loadSnapshot_of_snapshot hb]
    exact (Indexed.refill (Broker.snapshotSchema_eq_some.mp hb)).expireDueProbes

end BrokerState

theorem isSome_mapM {α β : Type} {f : α → Option β} {l : List α} :
    (l.mapM f).isSome = true ↔ ∀ a ∈ l, (f a).isSome = true := by
  induction l with
  | nil => exact iff_of_true rfl fun _ h => absurd h List.not_mem_nil
  | cons a l ih =>
    rw [List.mapM_cons, List.forall_mem_cons, ← ih]
    rcases f a with - | b
    · exact iff_of_false Bool.false_ne_true fun h => Bool.false_ne_true h.1
    · rcases l.mapM f with - | bs
      · exact iff_of_false Bool.false_ne_true fun h => Bool.false_ne_true h.2
      · exact iff_of_true rfl ⟨rfl, rfl⟩

namespace Process

variable {cfg : Config} {p : Process} {scope : ResourceScope} {serviceId : JsString} {commitSha : Option JsString}
  {shown : List ProbeDefinition}

/-- **An active set is read as a whole or not at all.**  Whatever a broker has been
asked, the Node agent reads the active set of a service, with the coordinates of a
commit, exactly when no expression in it has a name that the agents forbid.  The
compiler refuses such a name, but not one that becomes it when it is trimmed. -/
theorem located_read_iff (h : Reached (next cfg) (fun _ e => Valid e) {} p)
    (hshown : p.state.located cfg serviceId commitSha scope = .ok shown) (fingerprint : ProbeDefinition → JsString) :
    (shown.mapM (NodeAgent.parseProbe fingerprint serviceId)).isSome = true ↔
      ∀ q ∈ shown, ∀ e ∈ q.expressions, e.Allowed := by
  have hsendable := BrokerState.sendable_of_reached h
  rw [isSome_mapM]
  refine forall₂_congr fun q hq => ?_
  obtain ⟨i, hi⟩ := List.getElem?_of_mem hq
  obtain ⟨q₀, hq₀, hlocated⟩ := Outcome.getElem?_mapM hshown hi
  obtain ⟨stored, hstored, rfl⟩ := List.mem_map.mp (List.mem_of_getElem? hq₀)
  obtain ⟨hmem, hactive⟩ := List.mem_filter.mp hstored
  simp only [Bool.and_eq_true, decide_eq_true_eq] at hactive
  obtain ⟨id, hid⟩ := JsMap.mem_values_iff.mp hmem
  obtain ⟨hq, hservice⟩ := (hsendable id stored (JsMap.get?_eq_some_iff.mpr hid)).located hlocated
  have hread := NodeAgent.isSome_parseProbe fingerprint hq
  rwa [hservice, hactive.1.2] at hread

end Process

/-! ### A name between spaces -/

namespace Sample

open Broker BrokerState

/-- A parser that knows one computed property. -/
def jsepOfConstructor (source : JsString) : Except JsString JsepNode :=
  if source = property (js " constructor ") then
    .ok (.member true false (.identifier (js "a")) (.literal (.str (js " constructor "))))
  else .error (js "Unexpected character")

def constructorConfig : Config := { config with jsep := jsepOfConstructor }

/-- An agent reports that it evaluates expressions; a counter and the metric are created. -/
def spaced : List ProcessEvent :=
  [.request 0 scope (beat (js "a") [js "expression-ast-v1"]),
    .request 1 scope (.createProbe (draw '1') (counter 1)),
    .request 2 scope (.createProbe (draw '2') (metricOf (js " constructor ")))]

/-- The counter and, under its trimmed name, the metric. -/
def spacedSet : List ProbeDefinition :=
  [{ metricCompiled [] [] with
      body := .counter, id := draw '1' 0, version := 1, runtimeLocation := none, runtimeLine := none, runtimeColumn := none },
    BrokerState.newDefinition (metricCompiled (js " constructor ") (js "constructor")) (draw '2' 0) 2]

theorem spaced_reached :
    Reached (Process.next constructorConfig) (fun _ e => Process.Valid e) {}
      (spaced.foldl (Process.next constructorConfig) {}) := by
  have hbeat : (beat (js "a") [js "expression-ast-v1"]).Valid := rfl
  have hmetric : Protocol.createProbeInputSchema (metricOf (js " constructor ")) = some (metricOf (js " constructor ")) := by
    decide
  exact Reached.foldl .init ⟨hbeat, counter_valid 1 List.mem_cons_self, hmetric, trivial⟩

theorem spaced_located :
    (spaced.foldl (Process.next constructorConfig) {}).state.located constructorConfig (js "api") none scope =
      .ok spacedSet := by
  rfl

/-- The metric hides the counter from the agent. -/
theorem spaced_unread : spacedSet.mapM (NodeAgent.parseProbe (fun _ => []) (js "api")) = none := by
  refine Option.not_isSome_iff_eq_none.mp fun hread => ?_
  have hallowed := (Process.located_read_iff spaced_reached spaced_located fun _ => []).mp hread
  have hname := hallowed _ (List.mem_cons_of_mem _ List.mem_cons_self)
    ⟨property (js " constructor "), .reference [.name (js "a"), .name (js "constructor")]⟩ (by decide) (js "constructor")
  exact hname (by decide) (by decide)

end Sample
