/-
LiveProbe/SerializerAgreement.lean

When the serializers of the three agents make the same tree of a value.

The value is a vertex of a graph of JSON-like values, which may be shared and
cyclic; the identity of a container is the vertex.  Trees are compared by what is
found at each path (`Same`), so the order of an object's members is left out.

Node lists the keys that are array indices before the others, and each agent has
its own case mapping for keys and patterns.  `Alike` says that neither matters at
a container the traversal comes to; with bounds that are `int`s it is exact
(`serializers_agree_iff`).
-/
import LiveProbe.JvmSerializer
import LiveProbe.PythonSerializer
import Mathlib.Data.List.Sort

open JsString

/-! ### Trees, by what is found at a path -/

namespace SerializedNode

/-- A way down from a node. -/
inductive Branch
  | key (k : JsString)
  | index (i : ℕ)

/-- What a node says, apart from its children. -/
inductive Mark
  | str (v : JsString)
  | num (v : ℚ)
  | bool (v : Bool)
  | null
  | fn
  | redacted
  | unavailable (v : UnavailableValue)
  | truncated (v : TruncationKind)
  | obj (m : Bool)
  | arr (m : Bool)
  deriving DecidableEq

def mark : SerializedNode → Mark
  | str v => .str v
  | num v => .num v
  | bool v => .bool v
  | null => .null
  | fn => .fn
  | redacted => .redacted
  | unavailable v => .unavailable v
  | truncated v => .truncated v
  | obj _ m => .obj m
  | arr _ m => .arr m

def child : SerializedNode → Branch → Option SerializedNode
  | obj members _, .key k => (members.find? fun member => member.1 = k).map Prod.snd
  | arr items _, .index i => items[i]?
  | _, _ => none

def markAt : SerializedNode → List Branch → Option Mark
  | node, [] => some node.mark
  | node, branch :: path => (node.child branch).bind fun below => markAt below path

/-- The same marks at the same places. -/
def Same (a b : SerializedNode) : Prop := markAt a = markAt b

theorem same_iff {a b : SerializedNode} :
    Same a b ↔ a.mark = b.mark ∧ ∀ branch, Option.Rel Same (a.child branch) (b.child branch) := by
  constructor
  · intro h
    refine ⟨Option.some.inj (congrFun h []), fun branch => ?_⟩
    have hbelow := fun path => congrFun h (branch :: path)
    simp only [markAt] at hbelow
    rcases ha : a.child branch with - | x <;> rcases hb : b.child branch with - | y <;>
      rw [ha, hb] at hbelow
    · exact .none
    · cases hbelow []
    · cases hbelow []
    · exact .some (funext hbelow)
  · rintro ⟨hmark, hchild⟩
    funext path
    cases path with
    | nil => exact congrArg some hmark
    | cons branch path =>
      have hrel := hchild branch
      show (a.child branch).bind _ = (b.child branch).bind _
      generalize a.child branch = x, b.child branch = y at hrel ⊢
      cases hrel with
      | none => rfl
      | some hxy => exact congrFun hxy path

theorem Same.refl (a : SerializedNode) : Same a a := rfl

theorem eq_redacted_of_mark {a : SerializedNode} (h : a.mark = .redacted) : a = redacted := by
  cases a with
  | redacted => rfl
  | _ => cases h

theorem same_redacted_iff {a : SerializedNode} : Same redacted a ↔ a = redacted := by
  constructor
  · intro h
    exact eq_redacted_of_mark (same_iff.mp h).1.symm
  · rintro rfl
    exact .refl _

theorem same_comm {a b : SerializedNode} : Same a b ↔ Same b a := eq_comm

theorem same_arr_iff {α : Type} {items : List α} {f g : α → SerializedNode} {m : Bool} :
    Same (.arr (items.map f) m) (.arr (items.map g) m) ↔ ∀ v ∈ items, Same (f v) (g v) := by
  rw [same_iff]
  constructor
  · rintro ⟨-, hchild⟩ v hv
    obtain ⟨i, hi⟩ := List.getElem?_of_mem hv
    have hrel : Option.Rel Same ((items.map f)[i]?) ((items.map g)[i]?) := hchild (.index i)
    rw [List.getElem?_map, List.getElem?_map, hi] at hrel
    cases hrel with
    | some h => exact h
  · intro h
    refine ⟨rfl, fun branch => ?_⟩
    cases branch with
    | key k => exact .none
    | index i =>
      show Option.Rel Same ((items.map f)[i]?) ((items.map g)[i]?)
      rw [List.getElem?_map, List.getElem?_map]
      rcases hi : items[i]? with - | v
      · exact .none
      · exact .some (h v (List.mem_of_getElem? hi))

/-! ### The members of an object -/

section

variable {α : Type} {members kept kept' : List (JsString × α)}
  {f g : JsString × α → SerializedNode}

/-- The member of a key, where no two members have one key. -/
theorem find?_members (hkeys : (members.map Prod.fst).Nodup) (hkept : kept ⊆ members)
    {member : JsString × α} (h : member ∈ kept) :
    (kept.find? fun m => m.1 = member.1) = some member := by
  rcases hfind : kept.find? fun m => m.1 = member.1 with - | other
  · exact absurd (decide_eq_true rfl) (List.find?_eq_none.mp hfind member h)
  · have hfound := List.find?_some hfind
    have hkey : other.1 = member.1 := of_decide_eq_true hfound
    have hother := hkept (List.mem_of_find?_eq_some hfind)
    rw [hfind, List.inj_on_of_nodup_map hkeys hother (hkept h) hkey]

theorem child_obj_key (hkeys : (members.map Prod.fst).Nodup) (hkept : kept ⊆ members)
    {member : JsString × α} (h : member ∈ kept) (m : Bool) :
    child (.obj (kept.map fun m => (m.1, f m)) m) (.key member.1) = some (f member) := by
  show ((kept.map fun m => (m.1, f m)).find? fun m => m.1 = member.1).map Prod.snd = _
  rw [List.find?_map]
  have hfind := find?_members hkeys hkept h
  rw [show ((fun m : JsString × SerializedNode => decide (m.1 = member.1)) ∘
      fun m : JsString × α => (m.1, f m)) = fun m => decide (m.1 = member.1) from rfl, hfind]
  rfl

theorem child_obj_notMem {k : JsString} (h : k ∉ kept.map Prod.fst) (m : Bool) :
    child (.obj (kept.map fun m => (m.1, f m)) m) (.key k) = none := by
  show ((kept.map fun m => (m.1, f m)).find? fun m => m.1 = k).map Prod.snd = _
  rw [Option.map_eq_none_iff, List.find?_eq_none]
  rintro entry hentry heq
  obtain ⟨member, hmember, rfl⟩ := List.mem_map.mp hentry
  exact h (List.mem_map.mpr ⟨member, hmember, of_decide_eq_true heq⟩)

/-- Objects made of the members of one map are the same when they keep the same keys,
and the same child for each. -/
theorem same_obj_iff (hkeys : (members.map Prod.fst).Nodup) (hkept : kept ⊆ members)
    (hkept' : kept' ⊆ members) {m : Bool} :
    Same (.obj (kept.map fun m => (m.1, f m)) m) (.obj (kept'.map fun m => (m.1, g m)) m) ↔
      (∀ k, k ∈ kept.map Prod.fst ↔ k ∈ kept'.map Prod.fst) ∧
        ∀ member ∈ kept', Same (f member) (g member) := by
  -- a key both keep is that of one member
  have hshared : ∀ member ∈ kept', member.1 ∈ kept.map Prod.fst → member ∈ kept := by
    intro member hmember hkey
    obtain ⟨other, hother, heq⟩ := List.mem_map.mp hkey
    rwa [← List.inj_on_of_nodup_map hkeys (hkept hother) (hkept' hmember) heq]
  rw [same_iff]
  constructor
  · rintro ⟨-, hchild⟩
    have hiff : ∀ k, k ∈ kept.map Prod.fst ↔ k ∈ kept'.map Prod.fst := by
      intro k
      have hrel := hchild (.key k)
      by_cases h : k ∈ kept.map Prod.fst <;> by_cases h' : k ∈ kept'.map Prod.fst
      · exact iff_of_true h h'
      · obtain ⟨member, hmember, rfl⟩ := List.mem_map.mp h
        rw [child_obj_key hkeys hkept hmember, child_obj_notMem h'] at hrel
        cases hrel
      · obtain ⟨member, hmember, rfl⟩ := List.mem_map.mp h'
        rw [child_obj_notMem h, child_obj_key hkeys hkept' hmember] at hrel
        cases hrel
      · exact iff_of_false h h'
    refine ⟨hiff, fun member hmember => ?_⟩
    have hrel := hchild (.key member.1)
    have hmember' := hshared member hmember ((hiff _).mpr (List.mem_map_of_mem hmember))
    rw [child_obj_key hkeys hkept hmember', child_obj_key hkeys hkept' hmember] at hrel
    cases hrel with
    | some h => exact h
  · rintro ⟨hiff, hsame⟩
    refine ⟨rfl, fun branch => ?_⟩
    cases branch with
    | index i => exact .none
    | key k =>
      by_cases h : k ∈ kept'.map Prod.fst
      · obtain ⟨member, hmember, rfl⟩ := List.mem_map.mp h
        have hmember' := hshared member hmember ((hiff _).mpr h)
        rw [child_obj_key hkeys hkept hmember', child_obj_key hkeys hkept' hmember]
        exact .some (hsame member hmember)
      · rw [child_obj_notMem fun hk => h ((hiff k).mp hk), child_obj_notMem h]
        exact .none

end

end SerializedNode

namespace SerializerAgreement

open SerializedNode (Same same_redacted_iff same_arr_iff same_obj_iff)

/-! ### Graphs and settings -/

/-- A JSON-like value; what a container holds are vertices. -/
inductive GraphValue (ν : Type)
  | null
  | bool (b : Bool)
  | int (z : ℤ)
  | str (s : JsString)
  | array (items : List ν)
  | map (members : List (JsString × ν))

/-- A graph of JSON-like values: the integers are safe, and a map has ASCII keys, in the
order of insertion. -/
structure Graph (ν : Type) where
  value : ν → GraphValue ν
  safe : ∀ {v z}, value v = .int z → z.natAbs ≤ Schema.maxSafeInteger
  nodup : ∀ {v members}, value v = .map members → (members.map Prod.fst).Nodup
  ascii : ∀ {v members}, value v = .map members → ∀ m ∈ members, ∀ c ∈ m.1, c < 0x80

/-- A configuration of a serializer. -/
structure Settings where
  maxDepth : Option ℕ
  maxArray : Option ℕ
  maxProps : Option ℕ
  maxString : Option ℕ
  redactKeys : List JsString
  redactValues : List JsString
  nonBlank : ∀ key ∈ redactKeys, JvmBridge.isBlank key = false

def Settings.input (settings : Settings) : NodeAgent.SerializerConfigInput where
  maxDepth := settings.maxDepth.map Int.ofNat
  maxArray := settings.maxArray.map Int.ofNat
  maxProps := settings.maxProps.map Int.ofNat
  maxString := settings.maxString.map Int.ofNat
  redactKeys := settings.redactKeys
  redactValues := settings.redactValues

/-- `toLocaleLowerCase("en-US")`, `toLowerCase(Locale.ROOT)` and the tables of Python. -/
structure Tables where
  nodeLower : JsString → JsString
  jvmLower : JsString → JsString
  unicode : PythonAgent.Unicode

/-- The array index that a key is the numeral of. -/
def arrayIndex (key : JsString) : Option ℕ :=
  (readDecimal key).filter fun n => decimal n = key ∧ n < 2 ^ 32 - 1

section

variable {ν : Type}

/-- `Object.keys` in the order of the language: the array indices ascending, then the
other keys as they were inserted. -/
def ownOrder (members : List (JsString × ν)) : List (JsString × ν) :=
  (members.filter fun m => (arrayIndex m.1).isSome).insertionSort
      (fun m n => (arrayIndex m.1).getD 0 ≤ (arrayIndex n.1).getD 0) ++
    members.filter fun m => !(arrayIndex m.1).isSome

theorem ownOrder_perm (members : List (JsString × ν)) : (ownOrder members).Perm members := by
  have hsorted := List.perm_insertionSort
    (fun m n : JsString × ν => (arrayIndex m.1).getD 0 ≤ (arrayIndex n.1).getD 0)
    (members.filter fun m => (arrayIndex m.1).isSome)
  exact (hsorted.append_right _).trans (List.filter_append_perm _ members)

variable (g : Graph ν)

/-- How Node sees a vertex. -/
def Graph.nodeView (v : ν) : NodeAgent.Shape ν :=
  match g.value v with
  | .null => .null
  | .bool b => .boolean b
  | .int z => .number z
  | .str s => .string s
  | .array items => .array (items.map .value)
  | .map members => .object ((ownOrder members).map fun m => (m.1, .value m.2))

/-- How Python sees a vertex. -/
def Graph.pythonView (v : ν) : PythonAgent.Shape ν :=
  match g.value v with
  | .null => .none
  | .bool b => .bool b
  | .int z => .number (.int z)
  | .str s => .str (codePoints s)
  | .array items => .sequence items
  | .map members => .record (members.map fun m => (some (codePoints m.1), m.2))

def Graph.heap [DecidableEq ν] : PythonAgent.Heap ν where
  view := g.pythonView
  same v w := decide (v = w)

/-- How Java sees a vertex. -/
def Graph.jvmView (v : ν) : JvmBridge.Shape ν :=
  match g.value v with
  | .null => .null
  | .bool b => .boolean b
  | .int z => .number (.integer z)
  | .str s => .string s
  | .array items => .iterable items
  | .map members => .map (members.map fun m => (some m.1, m.2))

/-! ### The three trees -/

variable [DecidableEq ν] (tables : Tables) (settings : Settings)

def nodeTree (root : ν) : Except String SerializedNode :=
  NodeAgent.serialize tables.nodeLower g.nodeView settings.input root

def pythonTree (root : ν) : Except String SerializedNode := do
  let limits ← PythonAgent.SerializerLimits.fromMapping tables.unicode settings.input.maxDepth
    settings.input.maxArray settings.input.maxProps settings.input.maxString
    (settings.redactKeys.map codePoints) (settings.redactValues.map codePoints)
  return (PythonAgent.serialize tables.unicode g.heap limits root none).wire

def jvmTree (root : ν) : Except String SerializedNode :=
  JvmBridge.serialize tables.jvmLower g.jvmView settings.input root

/-- The three serializers make a tree of the value, and the same. -/
def Agree (root : ν) : Prop :=
  ∃ node python jvm, nodeTree g tables settings root = .ok node ∧
    pythonTree g tables settings root = .ok python ∧ jvmTree g tables settings root = .ok jvm ∧
      Same node python ∧ Same node jvm

/-! ### The traversal they have in common -/

/-- The bounds of a traversal and the texts it redacts. -/
structure Bounds where
  maxDepth : ℕ
  maxArray : ℕ
  maxProps : ℕ
  maxString : ℕ
  redactValues : List JsString

def Settings.bounds : Bounds where
  maxDepth := settings.maxDepth.getD 3
  maxArray := settings.maxArray.getD 3
  maxProps := settings.maxProps.getD 50
  maxString := settings.maxString.getD 1024
  redactValues := settings.redactValues

/-- The traversal of a graph, over a verdict on keys and an order of the members. -/
def traverse (bounds : Bounds) (redacts : JsString → Bool)
    (order : List (JsString × ν) → List (JsString × ν)) : ℕ → List ν → ν → SerializedNode
  | 0, _, v =>
    match g.value v with
    | .str s => if s ∈ bounds.redactValues then .redacted else .truncated .depth
    | _ => .truncated .depth
  | levels + 1, ancestors, v =>
    match g.value v with
    | .null => .null
    | .bool b => .bool b
    | .int z => .num z
    | .str s =>
      if s ∈ bounds.redactValues then .redacted
      else if bounds.maxString < (codePoints s).length then .truncated .string
      else .str s
    | .array items =>
      if v ∈ ancestors then .truncated .circular
      else
        .arr ((items.take bounds.maxArray).map
            (traverse bounds redacts order levels (v :: ancestors)))
          (bounds.maxArray < items.length)
    | .map members =>
      if v ∈ ancestors then .truncated .circular
      else
        .obj
          (((order members).take bounds.maxProps).map fun m =>
            (m.1,
              if redacts m.1 then .redacted
              else traverse bounds redacts order levels (v :: ancestors) m.2))
          (bounds.maxProps < members.length)

/-- Node's traversal. -/
theorem serializeValue_eq (config : NodeAgent.SerializerLimits) {bounds : Bounds}
    (harray : config.maxArray = bounds.maxArray) (hprops : config.maxProps = bounds.maxProps)
    (hstring : config.maxString = bounds.maxString)
    (hvalues : ∀ s, s ∈ config.redactValues ↔ s ∈ bounds.redactValues)
    (levels : ℕ) (ancestors : List ν) (v : ν) :
    NodeAgent.serializeValue tables.nodeLower g.nodeView config levels
        (ancestors.map NodeAgent.Raw.value) (.value v)
      = traverse g bounds
          (fun key => NodeAgent.isRedactedKey tables.nodeLower key config.toSerializerConfig)
          ownOrder levels ancestors v := by
  have hview : ∀ v, (NodeAgent.Raw.value v).shape g.nodeView = g.nodeView v := fun _ => rfl
  induction levels generalizing ancestors v with
  | zero =>
    rw [NodeAgent.serializeValue, traverse, hview, Graph.nodeView]
    cases g.value v with
    | str s => exact if_congr (hvalues s) rfl rfl
    | null | bool b | int z | array items | map members => rfl
  | succ levels ih =>
    have hmem : NodeAgent.Raw.value v ∈ ancestors.map NodeAgent.Raw.value ↔ v ∈ ancestors := by
      simp
    rw [NodeAgent.serializeValue, traverse, hview, Graph.nodeView]
    cases g.value v with
    | null | bool b | int z => rfl
    | str s => exact if_congr (hvalues s) rfl (if_congr (by rw [hstring]) rfl rfl)
    | array items =>
      dsimp only
      rw [harray]
      refine if_congr hmem rfl (congrArg₂ SerializedNode.arr ?_ (by rw [List.length_map]))
      rw [← List.map_take, List.map_map]
      exact List.map_congr_left fun item _ => ih (v :: ancestors) item
    | map members =>
      have hlength := (ownOrder_perm members).length_eq
      dsimp only
      rw [hprops]
      refine if_congr hmem rfl (congrArg₂ SerializedNode.obj ?_ (by rw [List.length_map, hlength]))
      rw [← List.map_take, List.map_map]
      refine List.map_congr_left fun m _ => congrArg (Prod.mk m.1) ?_
      exact if_congr Iff.rfl rfl (ih (v :: ancestors) m.2)

/-- Java's traversal; the key of a value that is not redacted makes no difference. -/
theorem walk_eq (config : JvmBridge.SerializerLimits) {bounds : Bounds}
    (harray : config.maxArray = bounds.maxArray) (hprops : config.maxProps = bounds.maxProps)
    (hstring : config.maxString = bounds.maxString)
    (hvalues : ∀ s, s ∈ config.redactValues ↔ s ∈ bounds.redactValues)
    (levels : ℕ) (ancestors : List ν) (key : Option JsString) (v : ν)
    (hkey : key.any (JvmBridge.isRedactedKey tables.jvmLower config.toConfig) = false) :
    JvmBridge.walk tables.jvmLower g.jvmView config levels ancestors key v
      = traverse g bounds (JvmBridge.isRedactedKey tables.jvmLower config.toConfig) id
          levels ancestors v := by
  have hopen : ¬ key.any (JvmBridge.isRedactedKey tables.jvmLower config.toConfig) = true := by
    rw [hkey]
    exact Bool.false_ne_true
  induction levels generalizing ancestors key v with
  | zero =>
    rw [JvmBridge.walk, traverse, if_neg hopen, Graph.jvmView]
    cases g.value v with
    | str s => exact (if_neg hopen).trans (if_congr (hvalues s) rfl rfl)
    | null | bool b | int z | array items | map members => rfl
  | succ levels ih =>
    rw [JvmBridge.walk, traverse, if_neg hopen, Graph.jvmView]
    cases g.value v with
    | null | bool b | int z => rfl
    | str s =>
      refine (if_neg hopen).trans (if_congr (hvalues s) rfl ?_)
      exact (if_neg (Nat.succ_ne_zero levels)).trans (if_congr (by rw [hstring]) rfl rfl)
    | array items =>
      dsimp only
      rw [harray]
      refine if_congr Iff.rfl rfl (congrArg (SerializedNode.arr · _) ?_)
      exact List.map_congr_left fun item _ => ih (v :: ancestors) none item rfl Bool.false_ne_true
    | map members =>
      have hentries : ((members.map fun m => (some m.1, m.2)).filterMap fun entry =>
          entry.1.map fun key => (key, entry.2)) = members := by
        rw [List.filterMap_map]
        exact List.filterMap_some
      dsimp only
      rw [hentries, hprops]
      refine if_congr Iff.rfl rfl (congrArg (SerializedNode.obj · _) ?_)
      refine List.map_congr_left fun m _ => congrArg (Prod.mk m.1) ?_
      by_cases hm : JvmBridge.isRedactedKey tables.jvmLower config.toConfig m.1 = true
      · rw [if_pos hm, if_pos hm]
      · rw [if_neg hm, if_neg hm]
        exact ih (v :: ancestors) (some m.1) m.2 (Bool.eq_false_of_not_eq_true hm) hm

/-- Python's traversal, as it is reported. -/
theorem wire_visit_eq {config : PythonAgent.SerializerLimits} {bounds : Bounds}
    (harray : config.maxArray = bounds.maxArray) (hprops : config.maxProps = bounds.maxProps)
    (hstring : config.maxString = bounds.maxString)
    (hvalues : ∀ s, codePoints s ∈ config.redactValues ↔ s ∈ bounds.redactValues)
    (levels : ℕ) (ancestors : List ν) (v : ν) :
    (PythonAgent.visit tables.unicode g.heap config levels ancestors v).wire
      = traverse g bounds
          (fun key => PythonAgent.redactsKey tables.unicode config.toSerializerConfig
            (codePoints key)) id levels ancestors v := by
  have hunits : ∀ s, PythonAgent.units (codePoints s) = s := units_codePoints
  have hview : g.heap.view = g.pythonView := rfl
  induction levels generalizing ancestors v with
  | zero =>
    rw [PythonAgent.visit, traverse, hview, Graph.pythonView]
    cases g.value v with
    | null | bool b | int z | array items | map members => rfl
    | str s =>
      dsimp only
      rw [apply_ite PythonAgent.Sanitized.wire]
      exact if_congr (hvalues s) rfl rfl
  | succ levels ih =>
    have hmem : ancestors.any (g.heap.same v) = true ↔ v ∈ ancestors := by
      rw [List.any_eq_true]
      constructor
      · rintro ⟨w, hw, heq⟩
        rwa [of_decide_eq_true heq]
      · intro hv
        exact ⟨v, hv, decide_eq_true rfl⟩
    rw [PythonAgent.visit, traverse, hview, Graph.pythonView]
    cases g.value v with
    | null | bool b | int z => rfl
    | str s =>
      dsimp only
      rw [apply_ite PythonAgent.Sanitized.wire, apply_ite PythonAgent.Sanitized.wire]
      refine if_congr (hvalues s) rfl (if_congr (by rw [hstring]) rfl ?_)
      exact congrArg SerializedNode.str (hunits s)
    | array items =>
      dsimp only
      rw [apply_ite PythonAgent.Sanitized.wire]
      refine if_congr hmem rfl ?_
      rw [PythonAgent.Sanitized.wire, PythonAgent.wireNodes_eq_map, List.map_map, harray]
      refine congrArg (SerializedNode.arr · _) ?_
      exact List.map_congr_left fun item _ => ih (v :: ancestors) item
    | map members =>
      dsimp only
      rw [apply_ite PythonAgent.Sanitized.wire]
      refine if_congr hmem rfl ?_
      rw [PythonAgent.Sanitized.wire, PythonAgent.wireMembers_eq_map, hprops]
      refine congrArg₂ SerializedNode.obj ?_ ?_
      · rw [← List.map_take, List.filterMap_map]
        show List.map _ (List.filterMap (some ∘ fun m : JsString × ν => (codePoints m.1,
          if PythonAgent.redactsKey tables.unicode config.toSerializerConfig (codePoints m.1) then
            PythonAgent.Sanitized.redacted
          else PythonAgent.visit tables.unicode g.heap config levels (v :: ancestors) m.2)) _) = _
        rw [List.filterMap_eq_map, List.map_map]
        refine List.map_congr_left fun m _ => congrArg₂ Prod.mk (hunits m.1) ?_
        dsimp only
        rw [apply_ite PythonAgent.Sanitized.wire]
        exact if_congr Iff.rfl rfl (ih (v :: ancestors) m.2)
      · have hnamed : (((members.map fun m => (some (codePoints m.1), m.2)).take
            bounds.maxProps).any fun member => member.1.isNone) = false := by
          rw [← List.map_take, List.any_map, List.any_eq_false]
          exact fun _ _ => Bool.false_ne_true
        rw [hnamed, Bool.or_false, List.length_map]

/-! ### Where the traversals are the same -/

def nodeRedacts (key : JsString) : Bool :=
  NodeAgent.isRedactedKey tables.nodeLower key
    (NodeAgent.normalizeSerializerConfig tables.nodeLower settings.redactKeys
      settings.redactValues)

def jvmRedacts (key : JsString) : Bool :=
  JvmBridge.isRedactedKey tables.jvmLower
    (JvmBridge.Config.new tables.jvmLower settings.redactKeys settings.redactValues) key

def pythonRedacts (key : JsString) : Bool :=
  let prepared := PythonAgent.SerializerConfig.fromMapping tables.unicode
    (settings.redactKeys.map codePoints) (settings.redactValues.map codePoints)
  prepared.toOption.any fun config => PythonAgent.redactsKey tables.unicode config (codePoints key)

/-- The agents find the same of a key. -/
def SameVerdict (key : JsString) : Prop :=
  nodeRedacts tables settings key = pythonRedacts tables settings key ∧
    nodeRedacts tables settings key = jvmRedacts tables settings key

/-- A text that is redacted wherever it stands. -/
def RedactedText (v : ν) : Prop := ∃ s ∈ settings.redactValues, g.value v = .str s

/-- The order does not change which keys of a map are kept. -/
def SameKept (maxProps : ℕ) (members : List (JsString × ν)) : Prop :=
  ∀ key, key ∈ ((ownOrder members).take maxProps).map Prod.fst ↔
    key ∈ (members.take maxProps).map Prod.fst

/-- At every container that is entered with so many levels left, the agents keep the same
and find the same of what they keep, unless it is a text they redact in any case. -/
def Alike : ℕ → List ν → ν → Prop
  | 0, _, _ => True
  | levels + 1, ancestors, v =>
    v ∈ ancestors ∨
      match g.value v with
      | .array items =>
        ∀ item ∈ items.take settings.bounds.maxArray, Alike levels (v :: ancestors) item
      | .map members =>
        SameKept settings.bounds.maxProps members ∧
          ∀ m ∈ members.take settings.bounds.maxProps,
            RedactedText g settings m.2 ∨
              SameVerdict tables settings m.1 ∧
                (nodeRedacts tables settings m.1 = true ∨ Alike levels (v :: ancestors) m.2)
      | _ => True

/-- Every bound is an `int`. -/
def Settings.Fits : Prop :=
  settings.bounds.maxDepth ≤ JvmBridge.maxInt ∧ settings.bounds.maxArray ≤ JvmBridge.maxInt ∧
    settings.bounds.maxProps ≤ JvmBridge.maxInt ∧ settings.bounds.maxString ≤ JvmBridge.maxInt

theorem traverse_eq_redacted_iff (redacts : JsString → Bool)
    (order : List (JsString × ν) → List (JsString × ν)) (levels : ℕ) (ancestors : List ν) (v : ν) :
    traverse g settings.bounds redacts order levels ancestors v = .redacted ↔
      RedactedText g settings v := by
  unfold RedactedText
  cases levels with
  | zero =>
    rw [traverse]
    rcases g.value v with - | b | z | s | items | members
    case str =>
      dsimp only
      split
      · exact iff_of_true rfl ⟨s, ‹_›, rfl⟩
      · refine iff_of_false nofun ?_
        rintro ⟨t, ht, heq⟩
        cases heq
        contradiction
    all_goals exact iff_of_false nofun fun ⟨_, _, h⟩ => nomatch h
  | succ levels =>
    rw [traverse]
    rcases g.value v with - | b | z | s | items | members
    case str =>
      dsimp only
      split
      · exact iff_of_true rfl ⟨s, ‹_›, rfl⟩
      · refine iff_of_false (by split <;> nofun) ?_
        rintro ⟨t, ht, heq⟩
        cases heq
        contradiction
    case array | map =>
      refine iff_of_false ?_ fun ⟨_, _, h⟩ => nomatch h
      dsimp only
      split <;> nofun
    all_goals exact iff_of_false nofun fun ⟨_, _, h⟩ => nomatch h

/-- A member comes out the same where the verdicts on its key do, or where its value is
redacted in any case. -/
theorem same_member_iff {node python jvm : SerializedNode} {text : Prop}
    (hnode : node = .redacted ↔ text) (hpython : python = .redacted ↔ text)
    (hjvm : jvm = .redacted ↔ text) (byNode byPython byJvm : Bool) :
    (Same (if byNode then .redacted else node) (if byPython then .redacted else python) ∧
        Same (if byNode then .redacted else node) (if byJvm then .redacted else jvm)) ↔
      (text ∨ (byNode = byPython ∧ byNode = byJvm) ∧
        (byNode = true ∨ Same node python ∧ Same node jvm)) := by
  have hswap : ∀ {a : SerializedNode}, Same a .redacted ↔ a = .redacted := fun {a} =>
    SerializedNode.same_comm.trans same_redacted_iff
  by_cases htext : text
  · rw [hnode.mpr htext, hpython.mpr htext, hjvm.mpr htext, ite_self, ite_self, ite_self]
    exact iff_of_true ⟨.refl _, .refl _⟩ (.inl htext)
  · have hnode' : ¬ node = .redacted := fun h => htext (hnode.mp h)
    have hpython' : ¬ python = .redacted := fun h => htext (hpython.mp h)
    have hjvm' : ¬ jvm = .redacted := fun h => htext (hjvm.mp h)
    cases byNode <;> cases byPython <;> cases byJvm <;>
      simp [same_redacted_iff, hswap, htext, hnode', hpython', hjvm']

/-- The three traversals of a vertex. -/
abbrev byNode : ℕ → List ν → ν → SerializedNode :=
  traverse g settings.bounds (nodeRedacts tables settings) ownOrder

abbrev byPython : ℕ → List ν → ν → SerializedNode :=
  traverse g settings.bounds (pythonRedacts tables settings) id

abbrev byJvm : ℕ → List ν → ν → SerializedNode :=
  traverse g settings.bounds (jvmRedacts tables settings) id

/-- **The traversals make the same tree exactly where `Alike` holds.** -/
theorem same_traverse_iff (levels : ℕ) (ancestors : List ν) (v : ν) :
    (Same (byNode g tables settings levels ancestors v)
          (byPython g tables settings levels ancestors v) ∧
        Same (byNode g tables settings levels ancestors v)
          (byJvm g tables settings levels ancestors v)) ↔
      Alike g tables settings levels ancestors v := by
  induction levels generalizing ancestors v with
  | zero => exact iff_of_true ⟨.refl _, .refl _⟩ trivial
  | succ levels ih =>
    rw [Alike]
    by_cases hv : v ∈ ancestors
    · refine iff_of_true ?_ (.inl hv)
      simp only [byNode, byPython, byJvm, traverse, if_pos hv]
      exact ⟨.refl _, .refl _⟩
    rw [or_iff_right hv]
    simp only [byNode, byPython, byJvm, traverse, if_neg hv]
    rcases hvalue : g.value v with - | b | z | s | items | members
    · exact iff_of_true ⟨.refl _, .refl _⟩ trivial
    · exact iff_of_true ⟨.refl _, .refl _⟩ trivial
    · exact iff_of_true ⟨.refl _, .refl _⟩ trivial
    · exact iff_of_true ⟨.refl _, .refl _⟩ trivial
    · -- an array: the same at every item kept
      dsimp only
      rw [same_arr_iff, same_arr_iff]
      constructor
      · rintro ⟨hpython, hjvm⟩ item hitem
        exact (ih _ item).mp ⟨hpython item hitem, hjvm item hitem⟩
      · intro h
        exact ⟨fun item hitem => ((ih _ item).mpr (h item hitem)).1,
          fun item hitem => ((ih _ item).mpr (h item hitem)).2⟩
    · -- a map: the same keys, and the same at every member kept
      have hkeys := g.nodup hvalue
      have hkept : (ownOrder members).take settings.bounds.maxProps ⊆ members := fun m hm =>
        (ownOrder_perm members).subset (List.mem_of_mem_take hm)
      have hkept' : members.take settings.bounds.maxProps ⊆ members := List.take_subset _ _
      have hmember : ∀ m : JsString × ν, _ := fun m =>
        (same_member_iff (traverse_eq_redacted_iff g settings (nodeRedacts tables settings) ownOrder
            levels (v :: ancestors) m.2)
          (traverse_eq_redacted_iff g settings (pythonRedacts tables settings) id levels
            (v :: ancestors) m.2)
          (traverse_eq_redacted_iff g settings (jvmRedacts tables settings) id levels
            (v :: ancestors) m.2)
          (nodeRedacts tables settings m.1) (pythonRedacts tables settings m.1)
          (jvmRedacts tables settings m.1)).trans
        (or_congr_right (and_congr_right' (or_congr_right (ih (v :: ancestors) m.2))))
      dsimp only [id]
      rw [same_obj_iff hkeys hkept hkept', same_obj_iff hkeys hkept hkept']
      constructor
      · rintro ⟨⟨hsame, hpython⟩, -, hjvm⟩
        exact ⟨hsame, fun m hm => (hmember m).mp ⟨hpython m hm, hjvm m hm⟩⟩
      · rintro ⟨hsame, hall⟩
        exact ⟨⟨hsame, fun m hm => ((hmember m).mpr (hall m hm)).1⟩,
          hsame, fun m hm => ((hmember m).mpr (hall m hm)).2⟩

/-! ### Configurations -/

theorem normalizedLimit_of_le {value : Option ℕ} {fallback : ℕ} (name : String)
    (h : value.getD fallback ≤ JvmBridge.maxInt) :
    NodeAgent.normalizedLimit (value.map Int.ofNat) fallback name
      = .ok (value.getD fallback) := by
  cases value with
  | none => rfl
  | some n =>
    refine if_neg ?_
    have hn : n ≤ 2147483647 := h
    simp only [Int.ofNat_eq_natCast, Int.natAbs_natCast, Schema.maxSafeInteger]
    omega

theorem nonNegativeInt_eq (value : Option ℕ) (fallback : ℕ) (name : String) :
    PythonAgent.nonNegativeInt (value.map Int.ofNat) fallback name
      = .ok (value.getD fallback) := by
  cases value with
  | none => rfl
  | some n =>
    have hn : ¬ Int.ofNat n < 0 := Int.not_lt.mpr (Int.natCast_nonneg n)
    unfold PythonAgent.nonNegativeInt
    exact if_neg hn

theorem configInteger_of_le {value : Option ℕ} {fallback : ℕ} (key : String)
    (h : value.getD fallback ≤ JvmBridge.maxInt) :
    JvmBridge.configInteger (value.map Int.ofNat) key fallback = .ok (value.getD fallback) := by
  cases value with
  | none => rfl
  | some n =>
    have hn : n ≤ JvmBridge.maxInt := h
    have hrange : ¬ ((n : ℤ) < -(JvmBridge.maxInt + 1 : ℤ) ∨ (JvmBridge.maxInt : ℤ) < n) := by
      omega
    exact (if_neg hrange).trans (if_neg (Int.not_lt.mpr (Int.natCast_nonneg n)))

theorem le_of_configInteger {value : Option ℕ} {key : String} {fallback n : ℕ}
    (hfallback : fallback ≤ JvmBridge.maxInt)
    (h : JvmBridge.configInteger (value.map Int.ofNat) key fallback = .ok n) :
    value.getD fallback ≤ JvmBridge.maxInt := by
  cases value with
  | none => exact hfallback
  | some m =>
    by_contra hm
    have hrange : (m : ℤ) < -(JvmBridge.maxInt + 1 : ℤ) ∨ (JvmBridge.maxInt : ℤ) < m := by
      have : JvmBridge.maxInt < m := Nat.lt_of_not_le hm
      omega
    have herror : JvmBridge.configInteger ((some m).map Int.ofNat) key fallback
        = .error (key ++ " must be a non-negative integer") := if_pos hrange
    rw [herror] at h
    cases h

theorem addKey_foldlM_ok {keys : List PythonAgent.PyString} (h : [] ∉ keys)
    (kept : List PythonAgent.PyString × List PythonAgent.PyString) :
    ∃ kept', keys.foldlM (PythonAgent.addKey tables.unicode) kept = .ok kept' := by
  induction keys generalizing kept with
  | nil => exact ⟨kept, rfl⟩
  | cons key keys ih =>
    rw [List.mem_cons, not_or] at h
    have hstep : ∃ next, PythonAgent.addKey tables.unicode kept key = .ok next := by
      rw [PythonAgent.addKey, if_neg (Ne.symm h.1)]
      split <;> exact ⟨_, rfl⟩
    obtain ⟨next, hnext⟩ := hstep
    rw [List.foldlM_cons, hnext]
    exact ih h.2 next

/-- Python takes the patterns of settings. -/
theorem fromMapping_ok : ∃ config, PythonAgent.SerializerConfig.fromMapping tables.unicode
    (settings.redactKeys.map codePoints) (settings.redactValues.map codePoints) = .ok config ∧
      ∀ s, codePoints s ∈ config.redactValues ↔ s ∈ settings.redactValues := by
  have hnil : codePoints [] = [] := rfl
  have hmap : ∀ l : List JsString, [] ∉ l → [] ∉ l.map codePoints := by
    intro l hl hmem
    rw [← hnil, List.mem_map_of_injective codePoints_injective] at hmem
    exact hl hmem
  have hkeys : [] ∉ PythonAgent.defaultRedactKeys ++ settings.redactKeys.map codePoints := by
    rw [List.mem_append, not_or]
    refine ⟨hmap NodeAgent.defaultRedactKeys (by decide), hmap settings.redactKeys fun h => ?_⟩
    cases settings.nonBlank [] h
  obtain ⟨keys, hfold⟩ := addKey_foldlM_ok tables hkeys ([], [])
  refine ⟨⟨keys.1, (settings.redactValues.map codePoints).eraseDups⟩, ?_, fun s => ?_⟩
  · rw [PythonAgent.SerializerConfig.fromMapping, hfold]
    rfl
  · rw [List.mem_eraseDups, List.mem_map_of_injective codePoints_injective]

/-! ### The trees of the agents -/

/-- What Node makes of settings whose bounds are safe. -/
def nodeLimits : NodeAgent.SerializerLimits :=
  { NodeAgent.normalizeSerializerConfig tables.nodeLower settings.redactKeys
      settings.redactValues with
    maxDepth := settings.bounds.maxDepth, maxArray := settings.bounds.maxArray
    maxProps := settings.bounds.maxProps, maxString := settings.bounds.maxString }

/-- What Java makes of settings whose bounds are `int`s. -/
def jvmLimits : JvmBridge.SerializerLimits :=
  { JvmBridge.Config.new tables.jvmLower settings.redactKeys settings.redactValues with
    maxDepth := settings.bounds.maxDepth, maxArray := settings.bounds.maxArray
    maxProps := settings.bounds.maxProps, maxString := settings.bounds.maxString }

theorem nodeTree_eq (h : settings.Fits) (root : ν) :
    nodeTree g tables settings root
      = .ok (byNode g tables settings (settings.bounds.maxDepth + 1) [] root) := by
  obtain ⟨hdepth, harray, hprops, hstring⟩ := h
  have hlimits : NodeAgent.SerializerLimits.normalize tables.nodeLower settings.input
      = .ok (nodeLimits tables settings) := by
    unfold NodeAgent.SerializerLimits.normalize Settings.input
    dsimp only
    rw [normalizedLimit_of_le "maxDepth" hdepth, normalizedLimit_of_le "maxArray" harray,
      normalizedLimit_of_le "maxProps" hprops, normalizedLimit_of_le "maxString" hstring]
    rfl
  rw [nodeTree, NodeAgent.serialize, hlimits]
  refine congrArg Except.ok ?_
  show NodeAgent.serializeValue _ _ (nodeLimits tables settings) _ _ _ = _
  have hvalues : ∀ s, s ∈ (nodeLimits tables settings).redactValues ↔ s ∈ settings.redactValues :=
    fun s => List.mem_eraseDups
  exact serializeValue_eq g tables _ rfl rfl rfl hvalues (settings.bounds.maxDepth + 1) [] root

theorem pythonTree_eq (root : ν) :
    pythonTree g tables settings root
      = .ok (byPython g tables settings (settings.bounds.maxDepth + 1) [] root) := by
  obtain ⟨config, hconfig, hvalues⟩ := fromMapping_ok tables settings
  have hlimits : PythonAgent.SerializerLimits.fromMapping tables.unicode settings.input.maxDepth
      settings.input.maxArray settings.input.maxProps settings.input.maxString
      (settings.redactKeys.map codePoints) (settings.redactValues.map codePoints)
      = .ok { config with
        maxDepth := settings.bounds.maxDepth, maxArray := settings.bounds.maxArray
        maxProps := settings.bounds.maxProps, maxString := settings.bounds.maxString } := by
    unfold PythonAgent.SerializerLimits.fromMapping Settings.input
    dsimp only
    rw [hconfig, nonNegativeInt_eq, nonNegativeInt_eq, nonNegativeInt_eq, nonNegativeInt_eq]
    rfl
  have hredacts : pythonRedacts tables settings = fun key =>
      PythonAgent.redactsKey tables.unicode config (codePoints key) := by
    funext key
    rw [pythonRedacts, hconfig]
    rfl
  rw [pythonTree, hlimits, byPython, hredacts]
  refine congrArg Except.ok ?_
  exact wire_visit_eq g tables rfl rfl rfl hvalues (settings.bounds.maxDepth + 1) [] root

theorem jvmTree_eq (h : settings.Fits) (root : ν) :
    jvmTree g tables settings root
      = .ok (byJvm g tables settings (settings.bounds.maxDepth + 1) [] root) := by
  obtain ⟨hdepth, harray, hprops, hstring⟩ := h
  have hlimits : JvmBridge.SerializerLimits.fromJson tables.jvmLower settings.input
      = .ok (jvmLimits tables settings) := by
    unfold JvmBridge.SerializerLimits.fromJson Settings.input
    dsimp only
    rw [configInteger_of_le "maxDepth" hdepth, configInteger_of_le "maxArray" harray,
      configInteger_of_le "maxProps" hprops, configInteger_of_le "maxString" hstring]
    rfl
  rw [jvmTree, JvmBridge.serialize, hlimits]
  refine congrArg Except.ok ?_
  show JvmBridge.walk _ _ (jvmLimits tables settings) _ _ _ _ = _
  have hvalues : ∀ s, s ∈ (jvmLimits tables settings).redactValues ↔ s ∈ settings.redactValues :=
    fun s => List.mem_eraseDups
  exact walk_eq g tables _ rfl rfl rfl hvalues (settings.bounds.maxDepth + 1) [] none root rfl

/-- Java makes a tree only within the bounds of `int`. -/
theorem fits_of_jvmTree {root : ν} {tree : SerializedNode}
    (h : jvmTree g tables settings root = .ok tree) : settings.Fits := by
  obtain ⟨limits, hlimits, -⟩ := Outcome.bind_eq_ok.mp h
  obtain ⟨maxDepth, hdepth, hlimits⟩ := Outcome.bind_eq_ok.mp hlimits
  obtain ⟨maxArray, harray, hlimits⟩ := Outcome.bind_eq_ok.mp hlimits
  obtain ⟨maxProps, hprops, hlimits⟩ := Outcome.bind_eq_ok.mp hlimits
  obtain ⟨maxString, hstring, -⟩ := Outcome.bind_eq_ok.mp hlimits
  exact ⟨le_of_configInteger (by decide) hdepth, le_of_configInteger (by decide) harray,
    le_of_configInteger (by decide) hprops, le_of_configInteger (by decide) hstring⟩

/-- **The serializers of the agents agree on a value exactly where the bounds are `int`s and
the agents come to nothing they take differently.** -/
theorem serializers_agree_iff (root : ν) :
    Agree g tables settings root ↔
      settings.Fits ∧ Alike g tables settings (settings.bounds.maxDepth + 1) [] root := by
  rw [← same_traverse_iff]
  constructor
  · rintro ⟨node, python, jvm, hnode, hpython, hjvm, hsame⟩
    have hfits := fits_of_jvmTree g tables settings hjvm
    rw [nodeTree_eq g tables settings hfits] at hnode
    rw [pythonTree_eq] at hpython
    rw [jvmTree_eq g tables settings hfits] at hjvm
    cases hnode
    cases hpython
    cases hjvm
    exact ⟨hfits, hsame⟩
  · rintro ⟨hfits, hsame⟩
    exact ⟨_, _, _, nodeTree_eq g tables settings hfits root, pythonTree_eq g tables settings root,
      jvmTree_eq g tables settings hfits root, hsame⟩

end

/-! ### A pattern that Python folds -/

/-- The case mappings, as far as ASCII and the sharp s go, which folds into two letters. -/
def sharpTables : Tables where
  nodeLower := toLowerCase
  jvmLower := toLowerCase
  unicode :=
    { casefold := fun s => s.flatMap fun c =>
        if c = 0xDF then [0x73, 0x73] else if 0x41 ≤ c ∧ c ≤ 0x5A then [c + 0x20] else [c]
      digit := fun c => if 0x30 ≤ c ∧ c ≤ 0x39 then some (c - 0x30) else none
      digit_ascii := PythonAgent.asciiDigit }

/-- The pattern `paßport`. -/
def sharpSettings : Settings where
  maxDepth := none
  maxArray := none
  maxProps := none
  maxString := none
  redactKeys := [js "paßport"]
  redactValues := []
  nonBlank := by decide

/-- `{ passport: 1 }` -/
def passportGraph : Graph Bool where
  value v := if v then .map [(js "passport", false)] else .int 1
  safe {v z} h := by
    cases v with
    | true => cases h
    | false =>
      cases h
      decide
  nodup {v members} h := by
    cases v with
    | true =>
      cases h
      exact List.nodup_singleton _
    | false => cases h
  ascii {v members} h := by
    cases v with
    | true =>
      cases h
      have hall : (js "passport").all (fun c => decide (c < 0x80)) = true := rfl
      rintro m hm c hc
      obtain rfl := List.mem_singleton.mp hm
      exact of_decide_eq_true (List.all_eq_true.mp hall c hc)
    | false => cases h

/-- Python redacts the key, Node and Java do not. -/
theorem passport_differs : ¬ Agree passportGraph sharpTables sharpSettings true := by
  have hfits : sharpSettings.Fits := ⟨by decide, by decide, by decide, by decide⟩
  have horder : ownOrder [(js "passport", false)] = [(js "passport", false)] := by decide
  have hnode : nodeRedacts sharpTables sharpSettings (js "passport") = false := by decide
  have hpython : pythonRedacts sharpTables sharpSettings (js "passport") = true := by
    decide
  rintro ⟨node, python, jvm, hn, hp, -, hsame, -⟩
  rw [nodeTree_eq passportGraph sharpTables sharpSettings hfits] at hn
  rw [pythonTree_eq] at hp
  cases hn
  cases hp
  have hbounds : sharpSettings.bounds = ⟨3, 3, 50, 1024, []⟩ := rfl
  have hmark := congrFun hsame [.key (js "passport")]
  rw [hbounds] at hmark
  simp [hbounds, byNode, byPython, traverse, passportGraph, horder, hnode, hpython,
    SerializedNode.markAt, SerializedNode.child, SerializedNode.mark] at hmark

end SerializerAgreement
