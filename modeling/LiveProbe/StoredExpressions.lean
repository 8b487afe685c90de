/-
LiveProbe/StoredExpressions.lean

What `createProbe` keeps of the expressions it compiled.

The definition is parsed once more before it is stored.  Of an expression that
schema rewrites one thing, the property names, which it trims (`trimNames`), and
it refuses a name of white space alone.  The compiler does neither, and so a
computed property reaches the agents under another name, or the request fails
after its version was drawn.
-/
import LiveProbe.CapabilityGate
import LiveProbe.Templates
import LiveProbe.Validators

open JsString Schema

/-! ### Names -/

namespace Expression

def segmentNames : List PathSegment → List JsString
  | [] => []
  | .name s :: path => s :: segmentNames path
  | .index _ :: path => segmentNames path

/-- The property names of an expression. -/
def names : ExpressionNode → List JsString
  | .literal _ => []
  | .reference path => segmentNames path
  | .unary _ operand => names operand
  | .binary _ left right => names left ++ names right

def trimSegment : PathSegment → PathSegment
  | .name s => .name (trim s)
  | .index n => .index n

/-- The expression with every name trimmed. -/
def trimNames : ExpressionNode → ExpressionNode
  | .literal value => .literal value
  | .reference path => .reference (path.map trimSegment)
  | .unary operator operand => .unary operator (trimNames operand)
  | .binary operator left right => .binary operator (trimNames left) (trimNames right)

theorem map_trimSegment_eq_self {path : List PathSegment} :
    path.map trimSegment = path ↔ ∀ name ∈ segmentNames path, trim name = name := by
  induction path with
  | nil => exact ⟨fun _ _ h => absurd h List.not_mem_nil, fun _ => rfl⟩
  | cons segment path ih =>
    rw [List.map_cons, List.cons.injEq, ih]
    cases segment with
    | name s =>
      show (PathSegment.name (trim s) = .name s ∧ _) ↔ ∀ name ∈ s :: segmentNames path, _
      rw [PathSegment.name.injEq, List.forall_mem_cons]
    | index n => exact and_iff_right rfl

theorem trimNames_eq_self {node : ExpressionNode} :
    trimNames node = node ↔ ∀ name ∈ names node, trim name = name := by
  induction node with
  | literal value => exact ⟨fun _ _ h => absurd h List.not_mem_nil, fun _ => rfl⟩
  | reference path =>
    rw [trimNames, ExpressionNode.reference.injEq]
    exact map_trimSegment_eq_self
  | unary operator operand ih =>
    rw [trimNames, ExpressionNode.unary.injEq, ih]
    exact and_iff_right rfl
  | binary operator left right ihl ihr =>
    rw [trimNames, ExpressionNode.binary.injEq, ihl, ihr, names, List.forall_mem_append]
    exact and_iff_right rfl

end Expression

open Expression

namespace CompiledExpression

def trimNames (e : CompiledExpression) : CompiledExpression := ⟨e.source, Expression.trimNames e.ast⟩

/-- Every name of an expression is its own trimming. -/
def Trimmed (e : CompiledExpression) : Prop := ∀ name ∈ names e.ast, trim name = name

theorem trimNames_eq_self {e : CompiledExpression} : e.trimNames = e ↔ e.Trimmed := by
  rw [Trimmed, ← Expression.trimNames_eq_self]
  cases e
  rw [trimNames, CompiledExpression.mk.injEq]
  exact and_iff_right rfl

theorem map_trimNames_eq_self {l : List CompiledExpression} :
    l.map trimNames = l ↔ ∀ e ∈ l, e.Trimmed := by
  have hiff : l.map trimNames = l.map id ↔ ∀ e ∈ l, e.trimNames = id e := List.map_inj_left
  rw [List.map_id] at hiff
  rw [hiff]
  exact forall₂_congr fun _ _ => trimNames_eq_self

end CompiledExpression

def TemplateSegment.trimNames : TemplateSegment → TemplateSegment
  | .text value => .text value
  | .expression e => .expression e.trimNames

/-- The expressions among the segments of a template. -/
def templateExpressions : List TemplateSegment → List CompiledExpression
  | [] => []
  | .text _ :: segments => templateExpressions segments
  | .expression e :: segments => e :: templateExpressions segments

/-- The expressions of the part of a definition that depends on the type. -/
def DefinitionBody.expressions : DefinitionBody → List CompiledExpression
  | .snapshot _ watchExpressions _ _ => watchExpressions.getD []
  | .log _ _ templateSegments => templateExpressions (templateSegments.getD [])
  | .counter => []
  | .metric _ metricExpression => metricExpression.toList

/-- The expressions of a definition. -/
def CompiledInput.expressions (c : CompiledInput) : List CompiledExpression :=
  c.conditionExpression.toList ++ c.body.expressions

theorem templateExpressions_trimNames (segments : List TemplateSegment) :
    templateExpressions (segments.map TemplateSegment.trimNames) =
      (templateExpressions segments).map CompiledExpression.trimNames := by
  induction segments with
  | nil => rfl
  | cons segment segments ih =>
    cases segment with
    | text value => exact ih
    | expression e => exact congrArg (e.trimNames :: ·) ih

/-! ### The schema of an expression -/

namespace Protocol

theorem expressionPathSegmentSchema_trim {segment stored : PathSegment}
    (h : expressionPathSegmentSchema segment = some stored) : stored = trimSegment segment := by
  cases segment with
  | name s =>
    obtain ⟨t, ht, rfl⟩ := Option.map_eq_some_iff.mp h
    exact congrArg PathSegment.name (trim_eq_of_trimmed ht).symm
  | index n =>
    obtain ⟨m, hm, rfl⟩ := Option.map_eq_some_iff.mp h
    exact congrArg PathSegment.index (nonnegativeInt_eq_some.mp hm).2.symm

theorem eq_map_of_boundedArray {α : Type*} {s : Schema α} {f : α → α} {lo hi : ℕ} {l t : List α}
    (h : boundedArray s lo hi l = some t) (hf : ∀ a b, s a = some b → b = f a) : t = l.map f := by
  obtain ⟨t', ht', hbound⟩ := Option.bind_eq_some_iff.mp h
  obtain ⟨-, rfl⟩ := refine_eq_some.mp hbound
  exact eq_map_of_array ht' fun a _ => hf a

theorem expressionNodeSchema_trim {node stored : ExpressionNode}
    (h : expressionNodeSchema node = some stored) : stored = Expression.trimNames node := by
  induction node generalizing stored with
  | literal value =>
    obtain ⟨v, hv, rfl⟩ := Option.map_eq_some_iff.mp h
    exact congrArg ExpressionNode.literal (refine_eq_some.mp hv).2.symm
  | reference path =>
    obtain ⟨p, hp, rfl⟩ := Option.map_eq_some_iff.mp h
    exact congrArg ExpressionNode.reference
      (eq_map_of_boundedArray hp fun _ _ => expressionPathSegmentSchema_trim)
  | unary operator operand ih =>
    obtain ⟨o, ho, rfl⟩ := Option.map_eq_some_iff.mp h
    exact congrArg (ExpressionNode.unary operator) (ih ho)
  | binary operator left right ihl ihr =>
    obtain ⟨l, hl, h⟩ := Option.bind_eq_some_iff.mp h
    obtain ⟨r, hr, h⟩ := Option.bind_eq_some_iff.mp h
    cases h
    exact congrArg₂ (ExpressionNode.binary operator) (ihl hl) (ihr hr)

theorem compiledExpressionSchema_trim {e stored : CompiledExpression}
    (h : compiledExpressionSchema e = some stored) : stored = e.trimNames := by
  obtain ⟨source, hsource, h⟩ := Option.bind_eq_some_iff.mp h
  obtain ⟨ast, hast, h⟩ := Option.bind_eq_some_iff.mp h
  cases h
  exact congrArg₂ CompiledExpression.mk (refine_eq_some.mp hsource).2.symm (expressionNodeSchema_trim hast)

theorem templateSegmentSchema_trim {segment stored : TemplateSegment}
    (h : templateSegmentSchema segment = some stored) : stored = segment.trimNames := by
  cases segment with
  | text value =>
    obtain ⟨v, hv, rfl⟩ := Option.map_eq_some_iff.mp h
    exact congrArg TemplateSegment.text (refine_eq_some.mp hv).2.symm
  | expression e =>
    obtain ⟨v, hv, rfl⟩ := Option.map_eq_some_iff.mp h
    exact congrArg TemplateSegment.expression (compiledExpressionSchema_trim hv)

theorem optional_eq_map {α : Type*} {s : Schema α} {f : α → α} {a b : Option α}
    (h : optional s a = some b) (hf : ∀ x y, s x = some y → y = f x) : b = a.map f := by
  rcases optional_eq_some.mp h with ⟨rfl, rfl⟩ | ⟨x, y, rfl, hy, rfl⟩
  · rfl
  · exact congrArg some (hf x y hy)

theorem definitionBodySchema_expressions {body stored : DefinitionBody}
    (h : definitionBodySchema body = some stored) :
    stored.expressions = body.expressions.map CompiledExpression.trimNames := by
  cases body with
  | snapshot watchPaths watchExpressions includeStackLocals stackFrameLimit =>
    obtain ⟨_, -, h⟩ := Option.bind_eq_some_iff.mp h
    obtain ⟨watches, hwatches, h⟩ := Option.bind_eq_some_iff.mp h
    obtain ⟨_, -, h⟩ := Option.bind_eq_some_iff.mp h
    cases h
    have hmap := optional_eq_map hwatches fun _ _ ht =>
      eq_map_of_boundedArray ht fun _ _ => compiledExpressionSchema_trim
    show watches.getD [] = (watchExpressions.getD []).map _
    rw [hmap]
    cases watchExpressions <;> rfl
  | log template logLevel templateSegments =>
    obtain ⟨_, -, h⟩ := Option.bind_eq_some_iff.mp h
    obtain ⟨segments, hsegments, h⟩ := Option.bind_eq_some_iff.mp h
    cases h
    have hmap := optional_eq_map hsegments fun _ _ ht =>
      eq_map_of_boundedArray ht fun _ _ => templateSegmentSchema_trim
    show templateExpressions (segments.getD []) = (templateExpressions (templateSegments.getD [])).map _
    rw [hmap, ← templateExpressions_trimNames]
    cases templateSegments <;> rfl
  | counter =>
    cases h
    rfl
  | metric metricPath metricExpression =>
    obtain ⟨_, -, h⟩ := Option.bind_eq_some_iff.mp h
    obtain ⟨metric, hmetric, h⟩ := Option.bind_eq_some_iff.mp h
    cases h
    show metric.toList = metricExpression.toList.map _
    rw [optional_eq_map hmetric fun _ _ => compiledExpressionSchema_trim]
    cases metricExpression <;> rfl

/-- **The schema trims the names of the expressions, and does nothing else to them.** -/
theorem probeDefinitionSchema_expressions {definition stored : ProbeDefinition}
    (h : probeDefinitionSchema definition = some stored) :
    stored.conditionExpression = definition.conditionExpression.map CompiledExpression.trimNames ∧
      stored.body.expressions = definition.body.expressions.map CompiledExpression.trimNames := by
  simp only [probeDefinitionSchema, compiledInputSchema, Option.bind_eq_bind, Option.bind_eq_some_iff,
    Option.pure_def, Option.some.injEq] at h
  obtain ⟨_, ⟨_, -, _, -, _, -, _, -, _, -, condition, hcondition, _, -, _, -, _, -, body, hbody, rfl⟩,
    _, -, _, -, _, -, _, -, _, -, rfl⟩ := h
  exact ⟨optional_eq_map hcondition fun _ _ => compiledExpressionSchema_trim,
    definitionBodySchema_expressions hbody⟩

end Protocol

/-! ### What is stored -/

/-- The expressions of a definition are those that were compiled. -/
structure KeepsExpressions (c : CompiledInput) (probe : ProbeDefinition) : Prop where
  condition : probe.conditionExpression = c.conditionExpression
  body : probe.body.expressions = c.body.expressions

theorem keepsExpressions_iff {c : CompiledInput} {id : JsString} {version : ℕ} {probe : ProbeDefinition}
    (h : Protocol.probeDefinitionSchema (BrokerState.newDefinition c id version) = some probe) :
    KeepsExpressions c probe ↔ ∀ e ∈ c.expressions, e.Trimmed := by
  obtain ⟨hcondition, hbody⟩ := Protocol.probeDefinitionSchema_expressions h
  have hhere : probe.conditionExpression = c.conditionExpression ↔
      ∀ e ∈ c.conditionExpression.toList, e.Trimmed := by
    rw [hcondition]
    show c.conditionExpression.map CompiledExpression.trimNames = c.conditionExpression ↔ _
    cases c.conditionExpression with
    | none => exact ⟨fun _ _ h => absurd h List.not_mem_nil, fun _ => rfl⟩
    | some e =>
      rw [Option.map_some, Option.some.injEq, CompiledExpression.trimNames_eq_self]
      exact List.forall_mem_singleton.symm
  have hthere : probe.body.expressions = c.body.expressions ↔ ∀ e ∈ c.body.expressions, e.Trimmed := by
    rw [hbody]
    exact CompiledExpression.map_trimNames_eq_self
  rw [CompiledInput.expressions, List.forall_mem_append, ← hhere, ← hthere]
  exact ⟨fun h => ⟨h.condition, h.body⟩, fun h => ⟨h.1, h.2⟩⟩

namespace BrokerState

open Broker

variable {cfg : Config} {now : ℕ} {draws : ℕ → JsString} {input : CreateProbeInput} {scope : ResourceScope}
  {s : BrokerState}

/-- The request has passed every check of `createProbe` but the last, the schema
of the definition. -/
structure ReachesSchema (cfg : Config) (now : ℕ) (draws : ℕ → JsString) (input : CreateProbeInput)
    (scope : ResourceScope) (s : BrokerState) (c : CompiledInput) (id : JsString) : Prop where
  compiles : compileProbeInput cfg.jsep input = .ok c
  supported : checkService ((s.refreshServiceCapabilities now scope input.serviceId).services.get?
    (serviceKey scope input.serviceId)) input c = .ok ()
  drawn : (s.refreshServiceCapabilities now scope input.serviceId).drawProbeId draws = some id
  wellFormed : Protocol.isProbeId id = true

/-- The definition that is parsed then. -/
def drawnDefinition (now : ℕ) (input : CreateProbeInput) (scope : ResourceScope) (s : BrokerState)
    (c : CompiledInput) (id : JsString) : ProbeDefinition :=
  newDefinition c id
    ((s.refreshServiceCapabilities now scope input.serviceId).serviceVersion scope input.serviceId + 1)

/-- The state after the version was drawn. -/
def versioned (now : ℕ) (input : CreateProbeInput) (scope : ResourceScope) (s : BrokerState) : BrokerState :=
  (s.refreshServiceCapabilities now scope input.serviceId).incrementServiceVersion input.serviceId scope

theorem createProbe_of_reaches {c : CompiledInput} {id : JsString}
    (h : s.ReachesSchema cfg now draws input scope c id) :
    s.createProbe cfg now draws input scope =
      match Protocol.probeDefinitionSchema (s.drawnDefinition now input scope c id) with
      | none => (s.versioned now input scope, .error .invalid)
      | some probe => ((s.versioned now input scope).insertProbe now scope probe, .ok probe) := by
  simp only [createProbe, h.compiles, h.supported, h.drawn, h.wellFormed, if_true]
  rfl

/-- A request that fails before the schema leaves the probes as they were. -/
theorem createProbe_of_not_reaches (h : ¬ ∃ c id, s.ReachesSchema cfg now draws input scope c id) :
    ∃ e, s.createProbe cfg now draws input scope = (s, .error e) ∨
      s.createProbe cfg now draws input scope =
        (s.refreshServiceCapabilities now scope input.serviceId, .error e) := by
  rcases hc : compileProbeInput cfg.jsep input with e | c
  · refine ⟨e, .inl ?_⟩
    simp only [createProbe, hc]
  rcases hservice : checkService ((s.refreshServiceCapabilities now scope input.serviceId).services.get?
      (serviceKey scope input.serviceId)) input c with e | ⟨⟩
  · refine ⟨e, .inr ?_⟩
    simp only [createProbe, hc, hservice]
  rcases hdrawn : (s.refreshServiceCapabilities now scope input.serviceId).drawProbeId draws with - | id
  · refine ⟨.failure (js "probe id generator repeatedly produced collisions"), .inr ?_⟩
    simp only [createProbe, hc, hservice, hdrawn]
  · have hid : Protocol.isProbeId id = false := by
      rw [← Bool.not_eq_true]
      intro hid
      exact h ⟨c, id, hc, hservice, hdrawn, hid⟩
    refine ⟨.invalid, .inr ?_⟩
    simp only [createProbe, hc, hservice, hdrawn, hid, Bool.false_eq_true, if_false]

/-- What `createProbe` returns is the compiled request, parsed, and it is what is stored. -/
theorem createProbe_eq_ok {probe : ProbeDefinition}
    (h : (s.createProbe cfg now draws input scope).2 = .ok probe) :
    ∃ c id, s.ReachesSchema cfg now draws input scope c id ∧
      Protocol.probeDefinitionSchema (s.drawnDefinition now input scope c id) = some probe ∧
      ((s.createProbe cfg now draws input scope).1.probes.get? probe.id).map (·.probe) = some probe := by
  by_cases hreaches : ∃ c id, s.ReachesSchema cfg now draws input scope c id
  · obtain ⟨c, id, hreaches⟩ := hreaches
    rw [createProbe_of_reaches hreaches] at h ⊢
    rcases hschema : Protocol.probeDefinitionSchema (s.drawnDefinition now input scope c id) with - | stored
    · rw [hschema] at h
      cases h
    · rw [hschema] at h
      cases h
      refine ⟨c, id, hreaches, hschema, ?_⟩
      show (((s.versioned now input scope).probes.set probe.id _).get? probe.id).map _ = _
      rw [JsMap.get?_set_self]
      rfl
  · obtain ⟨e, heq | heq⟩ := createProbe_of_not_reaches hreaches
    · rw [heq] at h
      cases h
    · rw [heq] at h
      cases h

/-- **What is stored is what was compiled, unless a name has white space at an end.** -/
theorem createProbe_keepsExpressions_iff {c : CompiledInput} {probe : ProbeDefinition}
    (hcompiles : compileProbeInput cfg.jsep input = .ok c)
    (h : (s.createProbe cfg now draws input scope).2 = .ok probe) :
    (∃ stored, (s.createProbe cfg now draws input scope).1.probes.get? probe.id = some stored ∧
      KeepsExpressions c stored.probe) ↔ ∀ e ∈ c.expressions, e.Trimmed := by
  obtain ⟨c', id, hreaches, hschema, hstored⟩ := createProbe_eq_ok h
  obtain rfl : c' = c := Except.ok.inj (hreaches.compiles.symm.trans hcompiles)
  rw [← keepsExpressions_iff hschema]
  obtain ⟨stored, hget, rfl⟩ := Option.map_eq_some_iff.mp hstored
  constructor
  · rintro ⟨stored', hget', hkeeps⟩
    rw [hget] at hget'
    cases hget'
    exact hkeeps
  · intro hkeeps
    exact ⟨stored, hget, hkeeps⟩

end BrokerState

/-! ### A property between spaces -/

namespace Sample

open Broker BrokerState

/-- `a["…"]` -/
def property (name : JsString) : JsString := js "a[\"" ++ name ++ js "\"]"

/-- A parser that knows three computed properties. -/
def jsepOfProperty (source : JsString) : Except JsString JsepNode :=
  match [js " x ", js "x", js " "].find? fun name => source = property name with
  | some name => .ok (.member true false (.identifier (js "a")) (.literal (.str name)))
  | none => .error (js "Unexpected character")

def propertyConfig : Config := { config with jsep := jsepOfProperty }

/-- A metric of a property. -/
def metricOf (name : JsString) : CreateProbeInput :=
  { counter 1 with body := .metric none (some (property name)) }

/-- A metric of the text of a property that is compiled to this name. -/
def metricCompiled (name compiled : JsString) : CompiledInput where
  serviceId := js "api"
  sourceCommit := none
  file := js "app.js"
  line := 1
  condition := none
  conditionExpression := none
  ttlSeconds := 1800
  createdBy := js "user"
  hitLimit := 10000
  body := .metric none (some ⟨property name, .reference [.name (js "a"), .name compiled]⟩)

/-- An agent of the service has reported that it evaluates expressions. -/
def capable : BrokerState :=
  (({} : BrokerState).handle propertyConfig 0 scope (beat (js "a") [js "expression-ast-v1"])).1

theorem metricOf_compiles : ∀ name ∈ [js " x ", js "x", js " "],
    compileProbeInput propertyConfig.jsep (metricOf name) = .ok (metricCompiled name name) := by
  decide

theorem metricOf_created : ∀ name ∈ [js " x ", js "x"],
    (capable.createProbe propertyConfig 1 (draw '1') (metricOf name) scope).2 =
      .ok (newDefinition (metricCompiled name (js "x")) (draw '1' 0) 1) := by
  decide

theorem property_kept :
    (∃ stored, (capable.createProbe propertyConfig 1 (draw '1') (metricOf (js "x")) scope).1.probes.get?
        (newDefinition (metricCompiled (js "x") (js "x")) (draw '1' 0) 1).id = some stored ∧
      KeepsExpressions (metricCompiled (js "x") (js "x")) stored.probe) ↔
      ∀ e ∈ (metricCompiled (js "x") (js "x")).expressions, e.Trimmed :=
  createProbe_keepsExpressions_iff (metricOf_compiles _ (List.mem_cons_of_mem _ List.mem_cons_self))
    (metricOf_created _ (List.mem_cons_of_mem _ List.mem_cons_self))

/-- `a[" x "]` is stored as `a["x"]`. -/
theorem spaced_renamed :
    ¬ ∀ (cfg : Config) (now : ℕ) (draws : ℕ → JsString) (input : CreateProbeInput) (scope : ResourceScope)
      (s : BrokerState) (c : CompiledInput) (probe : ProbeDefinition),
      compileProbeInput cfg.jsep input = .ok c → (s.createProbe cfg now draws input scope).2 = .ok probe →
        ∃ stored, (s.createProbe cfg now draws input scope).1.probes.get? probe.id = some stored ∧
          KeepsExpressions c stored.probe := by
  intro h
  have hcreated := metricOf_created _ List.mem_cons_self
  obtain ⟨stored, hget, hkeeps⟩ := h _ _ _ _ _ _ _ _ (metricOf_compiles _ List.mem_cons_self) hcreated
  obtain ⟨_, _, -, -, hstored⟩ := createProbe_eq_ok hcreated
  rw [hget, Option.map_some, Option.some.injEq] at hstored
  have hname := hkeeps.body
  rw [hstored] at hname
  exact absurd hname (by decide)

end Sample
