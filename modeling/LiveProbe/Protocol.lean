/-
LiveProbe/Protocol.lean

Probe definitions as `@doomslayer2945/liveprobe-protocol` types them, and the
schemas that read them.  A schema keeps the source's name.

The four probe types share their common fields; what is particular to a type
is its `body`.  `CompiledInput` is what `compileProbeInput` makes of a request,
a `ProbeDefinition` adds the identifier, the version and, when the service's
source maps are known, the runtime location.

The last section proves that what `ProbeDefinitionSchema` puts out it accepts
unchanged, which is what the broker's snapshots rest on.
-/
import LiveProbe.Expression
import LiveProbe.IsoDate

open JsString Schema

/-! ### Scopes -/

/-- The tenant, project and environment a request acts in. -/
structure ResourceScope where
  tenantId : JsString
  projectId : JsString
  environmentId : JsString
  deriving DecidableEq, Repr

/-! ### Patterns -/

namespace Protocol

/-- `[0-9a-fA-F]` -/
def isHexUnit (c : UInt16) : Bool :=
  isDigit c || (0x41 ≤ c && c ≤ 0x46) || (0x61 ≤ c && c ≤ 0x66)

/-- `[a-z0-9]` -/
def isLowerAlnum (c : UInt16) : Bool := isDigit c || (0x61 ≤ c && c ≤ 0x7A)

/-- `[0-9A-HJKMNP-TV-Z]` -/
def isCrockford (c : UInt16) : Bool :=
  isDigit c || (0x41 ≤ c && c ≤ 0x48) || c = 0x4A || c = 0x4B || c = 0x4D || c = 0x4E ||
    (0x50 ≤ c && c ≤ 0x54) || (0x56 ≤ c && c ≤ 0x5A)

/-- `/^[^.]+(?:\.[^.]+)*$/` -/
def isDotPath (s : JsString) : Bool := (s.splitOn 0x2E).all fun segment => segment ≠ []

/-- `/^prb_[0-9A-HJKMNP-TV-Z]{26}$/` -/
def isProbeId (s : JsString) : Bool :=
  s.take 4 = js "prb_" && (s.drop 4).length = 26 && (s.drop 4).all isCrockford

/-- `/^[a-z0-9][a-z0-9.-]*$/` -/
def isCapability : JsString → Bool
  | [] => false
  | c :: t => isLowerAlnum c && t.all fun d => isLowerAlnum d || d = 0x2E || d = 0x2D

/-! ### Field schemas -/

/-- A hexadecimal text of `lo` to `hi` units, put out in lower case. -/
def lowerHex (lo hi : ℕ) : Schema JsString := fun s =>
  if lo ≤ s.length ∧ s.length ≤ hi ∧ s.all isHexUnit then some (toLowerCase s) else none

def resourceScopeSchema : Schema ResourceScope := fun scope => do
  let tenantId ← text 1 200 scope.tenantId
  let projectId ← text 1 200 scope.projectId
  let environmentId ← text 1 200 scope.environmentId
  return { tenantId, projectId, environmentId }

def serviceIdSchema : Schema JsString := trimmed 1 200
def probeIdSchema : Schema JsString := refine isProbeId
def sourceFileSchema : Schema JsString := trimmed 1 4096
def sourceCommitSchema : Schema JsString := fun s => lowerHex 7 64 (trim s)
def timestampSchema : Schema JsString := refine IsoDate.isDatetime
def dotPathSchema : Schema JsString := trimmedWith 1 1024 isDotPath
def buildIdSchema : Schema JsString := lowerHex 8 128
def createdBySchema : Schema JsString := trimmed 1 500
def agentCapabilitySchema : Schema JsString := trimmedWith 1 64 isCapability

/-- `JsonScalarSchema` -/
def jsonScalarSchema : Schema JsonScalar :=
  refine fun v => match v with
    | .num q => Expression.safeNumber q
    | _ => true

end Protocol

/-! ### Conditions and expressions -/

inductive ConditionOp
  | eq | ne | gt | gte | lt | lte
  deriving DecidableEq, Repr

structure Condition where
  path : JsString
  op : ConditionOp
  value : JsonScalar
  deriving DecidableEq, Repr

namespace Protocol

def conditionSchema : Schema Condition := fun c => do
  let path ← dotPathSchema c.path
  let value ← jsonScalarSchema c.value
  return { c with path, value }

/-- `ExpressionPathSegmentSchema` -/
def expressionPathSegmentSchema : Schema PathSegment
  | .name s => (trimmed 1 256 s).map .name
  | .index n => (nonnegativeInt n).map .index

def expressionNodeSchema : Schema ExpressionNode
  | .literal value => (jsonScalarSchema value).map .literal
  | .reference path => (boundedArray expressionPathSegmentSchema 1 64 path).map .reference
  | .unary operator operand => (expressionNodeSchema operand).map (.unary operator)
  | .binary operator left right => do
    let left ← expressionNodeSchema left
    let right ← expressionNodeSchema right
    return .binary operator left right

def compiledExpressionSchema : Schema CompiledExpression := fun e => do
  let source ← text 1 4096 e.source
  let ast ← expressionNodeSchema e.ast
  return { source, ast }

def templateSegmentSchema : Schema TemplateSegment
  | .text value => (text 0 16384 value).map .text
  | .expression e => (compiledExpressionSchema e).map .expression

end Protocol

/-! ### Probe requests -/

inductive ProbeType
  | snapshot | log | counter | metric
  deriving DecidableEq, Repr

inductive LogLevel
  | debug | info | warn | error
  deriving DecidableEq, Repr

/-- The fields of a request that depend on its type. -/
inductive InputBody
  | snapshot (watchPaths : Option (List JsString)) (watchExpressions : Option (List JsString))
      (includeStackLocals : Bool) (stackFrameLimit : ℕ)
  | log (template : JsString) (logLevel : LogLevel)
  | counter
  | metric (metricPath metricExpression : Option JsString)
  deriving DecidableEq, Repr

/-- `CreateProbeInput`, defaults filled in. -/
structure CreateProbeInput where
  serviceId : JsString
  sourceCommit : Option JsString
  file : JsString
  line : ℕ
  condition : Option Condition
  conditionExpression : Option JsString
  ttlSeconds : ℕ
  createdBy : JsString
  hitLimit : ℕ
  body : InputBody
  deriving DecidableEq, Repr

namespace Protocol

def inputBodySchema : Schema InputBody
  | .snapshot watchPaths watchExpressions includeStackLocals stackFrameLimit => do
    let watchPaths ← optional (boundedArray dotPathSchema 0 100) watchPaths
    let watchExpressions ← optional (boundedArray (trimmed 1 4096) 0 100) watchExpressions
    let stackFrameLimit ← intBetween 1 8 stackFrameLimit
    return .snapshot watchPaths watchExpressions includeStackLocals stackFrameLimit
  | .log template logLevel => do
    let template ← text 1 16384 template
    return .log template logLevel
  | .counter => some .counter
  | .metric metricPath metricExpression => do
    let metricPath ← optional dotPathSchema metricPath
    let metricExpression ← optional (trimmed 1 4096) metricExpression
    return .metric metricPath metricExpression

/-- `CreateProbeInputSchema` on an input whose defaults are filled in. -/
def createProbeInputSchema : Schema CreateProbeInput := fun i => do
  let serviceId ← serviceIdSchema i.serviceId
  let sourceCommit ← optional sourceCommitSchema i.sourceCommit
  let file ← sourceFileSchema i.file
  let line ← positiveInt i.line
  let condition ← optional conditionSchema i.condition
  let conditionExpression ← optional (trimmed 1 4096) i.conditionExpression
  let ttlSeconds ← positiveInt i.ttlSeconds
  let createdBy ← createdBySchema i.createdBy
  let hitLimit ← positiveInt i.hitLimit
  let body ← inputBodySchema i.body
  return { serviceId, sourceCommit, file, line, condition, conditionExpression, ttlSeconds,
           createdBy, hitLimit, body }

end Protocol

/-! ### Probe definitions -/

/-- The fields of a definition that depend on its type. -/
inductive DefinitionBody
  | snapshot (watchPaths : Option (List JsString))
      (watchExpressions : Option (List CompiledExpression))
      (includeStackLocals : Bool) (stackFrameLimit : ℕ)
  | log (template : JsString) (logLevel : LogLevel)
      (templateSegments : Option (List TemplateSegment))
  | counter
  | metric (metricPath : Option JsString) (metricExpression : Option CompiledExpression)
  deriving DecidableEq, Repr

def DefinitionBody.type : DefinitionBody → ProbeType
  | .snapshot .. => .snapshot
  | .log .. => .log
  | .counter => .counter
  | .metric .. => .metric

/-- What `compileProbeInput` returns. -/
structure CompiledInput where
  serviceId : JsString
  sourceCommit : Option JsString
  file : JsString
  line : ℕ
  condition : Option Condition
  conditionExpression : Option CompiledExpression
  ttlSeconds : ℕ
  createdBy : JsString
  hitLimit : ℕ
  body : DefinitionBody
  deriving DecidableEq, Repr

structure ProbeDefinition extends CompiledInput where
  id : JsString
  version : ℕ
  runtimeLocation : Option JsString
  runtimeLine : Option ℕ
  runtimeColumn : Option ℕ
  deriving DecidableEq, Repr

def ProbeDefinition.type (p : ProbeDefinition) : ProbeType := p.body.type

namespace Protocol

def definitionBodySchema : Schema DefinitionBody
  | .snapshot watchPaths watchExpressions includeStackLocals stackFrameLimit => do
    let watchPaths ← optional (boundedArray dotPathSchema 0 100) watchPaths
    let watchExpressions ← optional (boundedArray compiledExpressionSchema 0 100) watchExpressions
    let stackFrameLimit ← intBetween 1 8 stackFrameLimit
    return .snapshot watchPaths watchExpressions includeStackLocals stackFrameLimit
  | .log template logLevel templateSegments => do
    let template ← text 1 16384 template
    let templateSegments ← optional (boundedArray templateSegmentSchema 0 201) templateSegments
    return .log template logLevel templateSegments
  | .counter => some .counter
  | .metric metricPath metricExpression => do
    let metricPath ← optional dotPathSchema metricPath
    let metricExpression ← optional compiledExpressionSchema metricExpression
    return .metric metricPath metricExpression

def compiledInputSchema : Schema CompiledInput := fun p => do
  let serviceId ← serviceIdSchema p.serviceId
  let sourceCommit ← optional sourceCommitSchema p.sourceCommit
  let file ← sourceFileSchema p.file
  let line ← positiveInt p.line
  let condition ← optional conditionSchema p.condition
  let conditionExpression ← optional compiledExpressionSchema p.conditionExpression
  let ttlSeconds ← positiveInt p.ttlSeconds
  let createdBy ← createdBySchema p.createdBy
  let hitLimit ← positiveInt p.hitLimit
  let body ← definitionBodySchema p.body
  return { serviceId, sourceCommit, file, line, condition, conditionExpression, ttlSeconds,
           createdBy, hitLimit, body }

def probeDefinitionSchema : Schema ProbeDefinition := fun p => do
  let compiled ← compiledInputSchema p.toCompiledInput
  let id ← probeIdSchema p.id
  let version ← positiveInt p.version
  let runtimeLocation ← optional sourceFileSchema p.runtimeLocation
  let runtimeLine ← optional positiveInt p.runtimeLine
  let runtimeColumn ← optional nonnegativeInt p.runtimeColumn
  return { toCompiledInput := compiled, id, version, runtimeLocation, runtimeLine, runtimeColumn }

/-! ### Schemas keep what they put out -/

/-- Lower case makes no other unit of a hexadecimal one. -/
theorem isHexUnit_toLowerCase {c : UInt16} (h : isHexUnit c = true) :
    isHexUnit (if 0x41 ≤ c && c ≤ 0x5A then c + 0x20 else c) = true := by
  split
  · next hc =>
    simp only [isHexUnit, isDigit, Bool.and_eq_true, Bool.or_eq_true, decide_eq_true_eq,
      UInt16.le_iff_toNat_le, UInt16.toNat_add, UInt16.reduceToNat] at h hc ⊢
    omega
  · exact h

theorem not_isSpace_of_isHexUnit {c : UInt16} (h : isHexUnit c = true) : isSpace c = false := by
  rw [Bool.eq_false_iff]
  intro hs
  simp only [isHexUnit, isSpace, isDigit, Bool.and_eq_true, Bool.or_eq_true, decide_eq_true_eq,
    UInt16.le_iff_toNat_le, ← UInt16.toNat_inj, UInt16.reduceToNat] at h hs
  omega

/-- A lowered text is lowered no further, and trimming finds nothing. -/
theorem stable_lowerHex (lo hi : ℕ) : Stable (lowerHex lo hi) := fun s t h => by
  unfold lowerHex at h
  split at h
  · next hs =>
    obtain rfl := Option.some.inj h
    have hl : (toLowerCase s).length = s.length := by simp [toLowerCase]
    have ha : (toLowerCase s).all isHexUnit = true := by
      simp only [toLowerCase, List.all_map, List.all_eq_true, Function.comp_apply]
      exact fun c hc => isHexUnit_toLowerCase (List.all_eq_true.mp hs.2.2 c hc)
    rw [lowerHex, hl, if_pos ⟨hs.1, hs.2.1, ha⟩, toLowerCase_toLowerCase]
  · cases h

/-- What is put out is hexadecimal. -/
theorem all_isHexUnit_of_lowerHex {lo hi : ℕ} {s : JsString} (h : lowerHex lo hi s = some s) :
    ∀ c ∈ s, isHexUnit c = true := by
  unfold lowerHex at h
  split at h
  · next hs => exact List.all_eq_true.mp hs.2.2
  · cases h

theorem stable_sourceCommitSchema : Stable sourceCommitSchema := fun s t h => by
  have ht : lowerHex 7 64 t = some t := stable_lowerHex 7 64 h
  have htrim : trim t = t :=
    trim_eq_self fun c hc => not_isSpace_of_isHexUnit (all_isHexUnit_of_lowerHex ht c hc)
  rw [sourceCommitSchema, htrim, ht]

theorem stable_buildIdSchema : Stable buildIdSchema := stable_lowerHex 8 128
theorem stable_serviceIdSchema : Stable serviceIdSchema := stable_trimmed 1 200
theorem stable_probeIdSchema : Stable probeIdSchema := stable_refine _
theorem stable_sourceFileSchema : Stable sourceFileSchema := stable_trimmed 1 4096
theorem stable_timestampSchema : Stable timestampSchema := stable_refine _
theorem stable_dotPathSchema : Stable dotPathSchema := stable_trimmedWith 1 1024 _
theorem stable_createdBySchema : Stable createdBySchema := stable_trimmed 1 500
theorem stable_jsonScalarSchema : Stable jsonScalarSchema := stable_refine _
theorem stable_agentCapabilitySchema : Stable agentCapabilitySchema := stable_trimmedWith 1 64 _

theorem stable_resourceScopeSchema : Stable resourceScopeSchema := fun a b h => by
  simp only [resourceScopeSchema, Option.bind_eq_bind, Option.bind_eq_some_iff, Option.pure_def,
    Option.some.injEq] at h ⊢
  obtain ⟨t, ht, p, hp, e, he, rfl⟩ := h
  exact ⟨t, stable_text _ _ ht, p, stable_text _ _ hp, e, stable_text _ _ he, rfl⟩

/-- A scope is put out as it came in or refused. -/
theorem kept_resourceScope (scope : ResourceScope) : Kept resourceScopeSchema scope := fun b h => by
  simp only [resourceScopeSchema, Option.bind_eq_bind, Option.bind_eq_some_iff, Option.pure_def,
    Option.some.injEq] at h
  obtain ⟨_, h₁, _, h₂, _, h₃, rfl⟩ := h
  rw [kept_refine _ _ h₁, kept_refine _ _ h₂, kept_refine _ _ h₃]

theorem stable_conditionSchema : Stable conditionSchema := fun a b h => by
  simp only [conditionSchema, Option.bind_eq_bind, Option.bind_eq_some_iff, Option.pure_def,
    Option.some.injEq] at h ⊢
  obtain ⟨p, hp, v, hv, rfl⟩ := h
  exact ⟨p, stable_dotPathSchema hp, v, stable_jsonScalarSchema hv, rfl⟩

theorem stable_expressionPathSegmentSchema : Stable expressionPathSegmentSchema := fun a b h => by
  cases a with
  | name s =>
    obtain ⟨t, ht, rfl⟩ := Option.map_eq_some_iff.mp h
    simp [expressionPathSegmentSchema, stable_trimmed _ _ ht]
  | index n =>
    obtain ⟨t, ht, rfl⟩ := Option.map_eq_some_iff.mp h
    have := stable_intBetween _ _ ht
    simp only [expressionPathSegmentSchema, nonnegativeInt, this, Option.map_some]

/-- By induction on the node, each schema for the level below. -/
theorem stable_expressionNodeSchema : Stable expressionNodeSchema := fun a => by
  induction a with
  | literal v =>
    intro b h
    obtain ⟨t, ht, rfl⟩ := Option.map_eq_some_iff.mp h
    simp [expressionNodeSchema, stable_jsonScalarSchema ht]
  | reference path =>
    intro b h
    obtain ⟨t, ht, rfl⟩ := Option.map_eq_some_iff.mp h
    have := stable_expressionPathSegmentSchema.boundedArray _ _ ht
    simp [expressionNodeSchema, this]
  | unary op operand ih =>
    intro b h
    obtain ⟨t, ht, rfl⟩ := Option.map_eq_some_iff.mp h
    simp [expressionNodeSchema, ih ht]
  | binary op left right ihl ihr =>
    intro b h
    simp only [expressionNodeSchema, Option.bind_eq_bind, Option.bind_eq_some_iff,
      Option.pure_def, Option.some.injEq] at h
    obtain ⟨l, hl, r, hr, rfl⟩ := h
    simp [expressionNodeSchema, ihl hl, ihr hr]

theorem stable_compiledExpressionSchema : Stable compiledExpressionSchema := fun a b h => by
  simp only [compiledExpressionSchema, Option.bind_eq_bind, Option.bind_eq_some_iff,
    Option.pure_def, Option.some.injEq] at h ⊢
  obtain ⟨s, hs, t, ht, rfl⟩ := h
  exact ⟨s, stable_text _ _ hs, t, stable_expressionNodeSchema ht, rfl⟩

theorem stable_templateSegmentSchema : Stable templateSegmentSchema := fun a b h => by
  cases a with
  | text v =>
    obtain ⟨t, ht, rfl⟩ := Option.map_eq_some_iff.mp h
    simp [templateSegmentSchema, stable_text _ _ ht]
  | expression e =>
    obtain ⟨t, ht, rfl⟩ := Option.map_eq_some_iff.mp h
    simp [templateSegmentSchema, stable_compiledExpressionSchema ht]

/-- Field by field, in the order of the schema. -/
theorem stable_definitionBodySchema : Stable definitionBodySchema := fun a b h => by
  cases a with
  | snapshot wp we isl sfl =>
    simp only [definitionBodySchema, Option.bind_eq_bind, Option.bind_eq_some_iff,
      Option.pure_def, Option.some.injEq] at h
    obtain ⟨p, hp, e, he, l, hl, rfl⟩ := h
    simp only [definitionBodySchema, (stable_dotPathSchema.boundedArray _ _).optional hp,
      (stable_compiledExpressionSchema.boundedArray _ _).optional he, stable_intBetween _ _ hl,
      Option.bind_eq_bind, Option.bind_some, Option.pure_def]
  | log template level segments =>
    simp only [definitionBodySchema, Option.bind_eq_bind, Option.bind_eq_some_iff,
      Option.pure_def, Option.some.injEq] at h
    obtain ⟨t, ht, s, hs, rfl⟩ := h
    simp only [definitionBodySchema, stable_text _ _ ht,
      (stable_templateSegmentSchema.boundedArray _ _).optional hs,
      Option.bind_eq_bind, Option.bind_some, Option.pure_def]
  | counter =>
    obtain rfl := Option.some.inj h
    rfl
  | metric path expression =>
    simp only [definitionBodySchema, Option.bind_eq_bind, Option.bind_eq_some_iff,
      Option.pure_def, Option.some.injEq] at h
    obtain ⟨p, hp, e, he, rfl⟩ := h
    simp only [definitionBodySchema, stable_dotPathSchema.optional hp,
      stable_compiledExpressionSchema.optional he,
      Option.bind_eq_bind, Option.bind_some, Option.pure_def]

theorem stable_compiledInputSchema : Stable compiledInputSchema := fun a b h => by
  simp only [compiledInputSchema, Option.bind_eq_bind, Option.bind_eq_some_iff, Option.pure_def,
    Option.some.injEq] at h
  obtain ⟨_, h₁, _, h₂, _, h₃, _, h₄, _, h₅, _, h₆, _, h₇, _, h₈, _, h₉, _, h₁₀, rfl⟩ := h
  simp only [compiledInputSchema, stable_serviceIdSchema h₁, stable_sourceCommitSchema.optional h₂,
    stable_sourceFileSchema h₃, stable_intBetween _ _ h₄, positiveInt,
    stable_conditionSchema.optional h₅, stable_compiledExpressionSchema.optional h₆,
    stable_intBetween _ _ h₇, stable_createdBySchema h₈, stable_intBetween _ _ h₉,
    stable_definitionBodySchema h₁₀, Option.bind_eq_bind, Option.bind_some, Option.pure_def]

/-- **A definition the schema put out passes it unchanged.** -/
theorem stable_probeDefinitionSchema : Stable probeDefinitionSchema := fun a b h => by
  simp only [probeDefinitionSchema, Option.bind_eq_bind, Option.bind_eq_some_iff, Option.pure_def,
    Option.some.injEq] at h
  obtain ⟨_, h₁, _, h₂, _, h₃, _, h₄, _, h₅, _, h₆, rfl⟩ := h
  simp only [probeDefinitionSchema, stable_compiledInputSchema h₁, stable_probeIdSchema h₂,
    stable_intBetween _ _ h₃, positiveInt, stable_sourceFileSchema.optional h₄,
    (stable_intBetween _ _).optional h₅, nonnegativeInt, (stable_intBetween _ _).optional h₆,
    Option.bind_eq_bind, Option.bind_some, Option.pure_def]

end Protocol
