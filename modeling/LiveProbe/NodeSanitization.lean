/-
LiveProbe/NodeSanitization.lean

What the serializer of the Node agent lets through: bounds, markers and redaction.

All of it goes by induction on the levels that are left, one case for each shape.
Two graphs are told apart by the traversal only through the members it descends
into and through the containers it has met, so they are compared along a relation
of their values that is one-to-one on containers (`Twin`).
-/
import LiveProbe.NodeSerializer
import Mathlib.Data.List.Forall2

open JsString

/-! ### Nodes of a result -/

/-- A node that far below another. -/
inductive SerializedNode.Holds : ℕ → SerializedNode → SerializedNode → Prop
  | here (node : SerializedNode) : Holds 0 node node
  | item {depth : ℕ} {c : List SerializedNode} {m : Bool} {child node : SerializedNode} (hmem : child ∈ c)
      (h : Holds depth child node) : Holds (depth + 1) (.arr c m) node
  | member {depth : ℕ} {c : List (JsString × SerializedNode)} {m : Bool} {key : JsString}
      {child node : SerializedNode} (hmem : (key, child) ∈ c) (h : Holds depth child node) :
      Holds (depth + 1) (.obj c m) node

/-- A node without elements. -/
def SerializedNode.isLeaf : SerializedNode → Bool
  | .arr .. | .obj .. => false
  | _ => true

namespace NodeAgent

/-- The bounds on a result, with the texts that are redacted. -/
structure Bounded (config : SerializerLimits) (result : SerializedNode) : Prop where
  arrays : ∀ depth c m, result.Holds depth (.arr c m) → depth ≤ config.maxDepth ∧ c.length ≤ config.maxArray
  objects : ∀ depth c m, result.Holds depth (.obj c m) → depth ≤ config.maxDepth ∧ c.length ≤ config.maxProps
  strings : ∀ depth s, result.Holds depth (.str s) →
    (codePoints s).length ≤ config.maxString ∧ s ∉ config.redactValues

section

variable {ν : Type}

/-- A value with elements. -/
def Shape.isContainer : Shape ν → Bool
  | .array _ | .object _ => true
  | _ => false

variable (lower : JsString → JsString) (view : ν → Shape ν) (config : SerializerLimits)

/-- What stands for a value that is not opened: the value itself, which then has no elements,
or the marker that says why it is left out. `below` are the containers around it. -/
inductive Stands (below : List (Raw ν)) (raw : Raw ν) : SerializedNode → Prop
  | null (h : raw.shape view = .null) : Stands below raw .null
  | str {s : JsString} (h : raw.shape view = .string s) : Stands below raw (.str s)
  | num {q : ℚ} (h : raw.shape view = .number q) : Stands below raw (.num q)
  | bool {b : Bool} (h : raw.shape view = .boolean b) : Stands below raw (.bool b)
  | fn (h : raw.shape view = .function) : Stands below raw .fn
  | redacted {s : JsString} (h : raw.shape view = .string s) (hmem : s ∈ config.redactValues) :
      Stands below raw .redacted
  | uncaptured (h : raw.shape view = .captureTruncated) : Stands below raw (.truncated .props)
  | deep (h : config.maxDepth < below.length) : Stands below raw (.truncated .depth)
  | long {s : JsString} (h : raw.shape view = .string s) (hlong : config.maxString < (codePoints s).length) :
      Stands below raw (.truncated .string)
  | circular (h : (raw.shape view).isContainer = true) (hmem : raw ∈ below) : Stands below raw (.truncated .circular)
  | unsupported (h : raw.shape view = .notFinite ∨ raw.shape view = .unsupported) :
      Stands below raw (.truncated .unsupported)

/-- A node shows the first elements of what it stands for, and is marked exactly when there
are more; the marker is all that is shown of a member under a redacted key. -/
inductive Depicts : List (Raw ν) → Raw ν → SerializedNode → Prop
  | leaf {below : List (Raw ν)} {raw : Raw ν} {node : SerializedNode} (h : Stands view config below raw node) :
      Depicts below raw node
  | arr {below items : List (Raw ν)} {raw : Raw ν} {children : List SerializedNode} {m : Bool}
      (hshape : raw.shape view = .array items) (hlength : children.length ≤ items.length)
      (hmark : m = true ↔ children.length < items.length)
      (hitems : ∀ (i : ℕ) item child, items[i]? = some item → children[i]? = some child →
        Depicts (raw :: below) item child) :
      Depicts below raw (.arr children m)
  | obj {below : List (Raw ν)} {raw : Raw ν} {members : List (JsString × Raw ν)}
      {children : List (JsString × SerializedNode)} {m : Bool}
      (hshape : raw.shape view = .object members) (hkeys : children.map Prod.fst <+: members.map Prod.fst)
      (hmark : m = true ↔ children.length < members.length)
      (hredacted : ∀ (i : ℕ) member child, members[i]? = some member → children[i]? = some child →
        isRedactedKey lower member.1 config.toSerializerConfig = true → child.2 = .redacted)
      (hmembers : ∀ (i : ℕ) member child, members[i]? = some member → children[i]? = some child →
        isRedactedKey lower member.1 config.toSerializerConfig = false → Depicts (raw :: below) member.2 child.2) :
      Depicts below raw (.obj children m)

end

/-! ### Two graphs -/

section

variable {ν μ : Type}

/-- Two properties hold values that are paired, or the same that is no value. -/
inductive Raw.Paired (paired : ν → μ → Prop) : Raw ν → Raw μ → Prop
  | value {v : ν} {w : μ} (h : paired v w) : Raw.Paired paired (.value v) (.value w)
  | getter : Raw.Paired paired .getter .getter
  | undefined : Raw.Paired paired .undefined .undefined

/-- Two shapes that differ below redacted keys only. -/
inductive Shape.Alike (redacts : JsString → Bool) (paired : ν → μ → Prop) : Shape ν → Shape μ → Prop
  | captureTruncated : Alike redacts paired .captureTruncated .captureTruncated
  | null : Alike redacts paired .null .null
  | string (s : JsString) : Alike redacts paired (.string s) (.string s)
  | number (q : ℚ) : Alike redacts paired (.number q) (.number q)
  | notFinite : Alike redacts paired .notFinite .notFinite
  | boolean (b : Bool) : Alike redacts paired (.boolean b) (.boolean b)
  | function : Alike redacts paired .function .function
  | array {items : List (Raw ν)} {items' : List (Raw μ)} (h : List.Forall₂ (Raw.Paired paired) items items') :
      Alike redacts paired (.array items) (.array items')
  | object {members : List (JsString × Raw ν)} {members' : List (JsString × Raw μ)}
      (h : List.Forall₂ (fun member member' => member.1 = member'.1 ∧
        (redacts member.1 = false → Raw.Paired paired member.2 member'.2)) members members') :
      Alike redacts paired (.object members) (.object members')
  | unsupported : Alike redacts paired .unsupported .unsupported

/-- A pairing of the values of two graphs that differ below redacted keys only; one
container is paired with one. -/
structure Twin (redacts : JsString → Bool) (view : ν → Shape ν) (view' : μ → Shape μ) (paired : ν → μ → Prop) :
    Prop where
  alike : ∀ v w, paired v w → Shape.Alike redacts paired (view v) (view' w)
  single : ∀ v w v' w', (view v).isContainer = true → paired v w → paired v' w' → (v = v' ↔ w = w')

end

/-! ### Bounds -/

section

variable {ν : Type} [DecidableEq ν] {lower : JsString → JsString} {view : ν → Shape ν} {config : SerializerLimits}

theorem holds_leaf {node below : SerializedNode} {depth : ℕ} (h : node.isLeaf = true) (hholds : node.Holds depth below) :
    depth = 0 ∧ below = node := by
  cases hholds with
  | here => exact ⟨rfl, rfl⟩
  | item | member => cases h

/-- What may stand at a depth, given the levels that are left at the root. -/
def Admissible (config : SerializerLimits) (levels depth : ℕ) : SerializedNode → Prop
  | .arr c _ => depth < levels ∧ c.length ≤ config.maxArray
  | .obj c _ => depth < levels ∧ c.length ≤ config.maxProps
  | .str s => (codePoints s).length ≤ config.maxString ∧ s ∉ config.redactValues
  | _ => True

theorem Admissible.succ {levels depth : ℕ} {node : SerializedNode} (h : Admissible config levels depth node) :
    Admissible config (levels + 1) (depth + 1) node := by
  cases node with
  | arr c m => exact ⟨Nat.succ_lt_succ h.1, h.2⟩
  | obj c m => exact ⟨Nat.succ_lt_succ h.1, h.2⟩
  | str s => exact h
  | num | bool | null | fn | redacted | unavailable | truncated => trivial

theorem admissible_leaf {levels depth : ℕ} {node : SerializedNode} (h : node.isLeaf = true)
    (hstr : ∀ s, node = .str s → (codePoints s).length ≤ config.maxString ∧ s ∉ config.redactValues) :
    Admissible config levels depth node := by
  cases node with
  | arr | obj => cases h
  | str s => exact hstr s rfl
  | num | bool | null | fn | redacted | unavailable | truncated => trivial

/-- What a value comes to: a leaf, or the first elements of a container. -/
theorem serializeValue_cases (lower : JsString → JsString) (view : ν → Shape ν) (config : SerializerLimits)
    (levels : ℕ) (ancestors : List (Raw ν)) (raw : Raw ν) :
    ((serializeValue lower view config levels ancestors raw).isLeaf = true ∧
        ∀ s, serializeValue lower view config levels ancestors raw = .str s →
          (codePoints s).length ≤ config.maxString ∧ s ∉ config.redactValues) ∨
      (∃ n items, levels = n + 1 ∧ raw.shape view = .array items ∧
        serializeValue lower view config levels ancestors raw =
          .arr ((items.take config.maxArray).map (serializeValue lower view config n (raw :: ancestors)))
            (config.maxArray < items.length)) ∨
      ∃ n members, levels = n + 1 ∧ raw.shape view = .object members ∧
        serializeValue lower view config levels ancestors raw =
          .obj ((members.take config.maxProps).map fun member =>
              (member.1, if isRedactedKey lower member.1 config.toSerializerConfig then .redacted
                else serializeValue lower view config n (raw :: ancestors) member.2))
            (config.maxProps < members.length) := by
  rcases levels with - | levels
  · left
    rw [serializeValue]
    rcases raw.shape view with - | - | s | q | - | b | - | items | members | -
    case string =>
      dsimp only
      split
      · exact ⟨rfl, nofun⟩
      · exact ⟨rfl, nofun⟩
    all_goals exact ⟨rfl, nofun⟩
  · rw [serializeValue]
    rcases hshape : raw.shape view with - | - | s | q | - | b | - | items | members | -
    case string =>
      left
      dsimp only
      split
      · exact ⟨rfl, nofun⟩
      · next hvalue =>
        split
        · exact ⟨rfl, nofun⟩
        · next hlong =>
          refine ⟨rfl, fun t ht => ?_⟩
          cases ht
          exact ⟨Nat.le_of_not_lt hlong, hvalue⟩
    case array =>
      dsimp only
      split
      · exact .inl ⟨rfl, nofun⟩
      · exact .inr (.inl ⟨levels, items, rfl, rfl, rfl⟩)
    case object =>
      dsimp only
      split
      · exact .inl ⟨rfl, nofun⟩
      · exact .inr (.inr ⟨levels, members, rfl, rfl, rfl⟩)
    all_goals exact .inl ⟨rfl, nofun⟩

theorem admissible_of_holds {levels depth : ℕ} {ancestors : List (Raw ν)} {raw : Raw ν} {node : SerializedNode}
    (h : (serializeValue lower view config levels ancestors raw).Holds depth node) :
    Admissible config levels depth node := by
  induction levels generalizing ancestors raw depth with
  | zero =>
    rcases serializeValue_cases lower view config 0 ancestors raw with
      ⟨hleaf, hstr⟩ | ⟨_, _, hlevels, -⟩ | ⟨_, _, hlevels, -⟩
    · obtain ⟨-, rfl⟩ := holds_leaf hleaf h
      exact admissible_leaf hleaf hstr
    · cases hlevels
    · cases hlevels
  | succ levels ih =>
    rcases serializeValue_cases lower view config (levels + 1) ancestors raw with
      ⟨hleaf, hstr⟩ | ⟨n, items, hlevels, -, hnode⟩ | ⟨n, members, hlevels, -, hnode⟩
    · obtain ⟨-, rfl⟩ := holds_leaf hleaf h
      exact admissible_leaf hleaf hstr
    · cases hlevels
      rw [hnode] at h
      cases h with
      | here => exact ⟨Nat.succ_pos _, by rw [List.length_map]; exact List.length_take_le _ _⟩
      | item hmem h =>
        obtain ⟨item, -, rfl⟩ := List.mem_map.mp hmem
        exact (ih h).succ
    · cases hlevels
      rw [hnode] at h
      cases h with
      | here => exact ⟨Nat.succ_pos _, by rw [List.length_map]; exact List.length_take_le _ _⟩
      | member hmem h =>
        obtain ⟨member, -, hmember⟩ := List.mem_map.mp hmem
        obtain ⟨rfl, rfl⟩ := Prod.mk.inj hmember
        split at h
        · -- a redacted member has nothing below it
          obtain ⟨-, rfl⟩ := holds_leaf rfl h
          trivial
        · exact (ih h).succ

theorem bounded_serializeValue (ancestors : List (Raw ν)) (raw : Raw ν) :
    Bounded config (serializeValue lower view config (config.maxDepth + 1) ancestors raw) where
  arrays _ _ _ h := ⟨Nat.le_of_lt_succ (admissible_of_holds h).1, (admissible_of_holds h).2⟩
  objects _ _ _ h := ⟨Nat.le_of_lt_succ (admissible_of_holds h).1, (admissible_of_holds h).2⟩
  strings _ _ h := admissible_of_holds h

/-! ### Markers -/

theorem length_take_lt {α : Type*} (n : ℕ) (l : List α) : decide (n < l.length) = true ↔ (l.take n).length < l.length := by
  rw [decide_eq_true_iff, List.length_take]
  omega

theorem getElem?_of_take {α : Type*} {n i : ℕ} {l : List α} {a : α} (h : (l.take n)[i]? = some a) : l[i]? = some a := by
  rw [List.getElem?_take] at h
  split at h
  · exact h
  · cases h

/-- A value that is not opened has its own node or its marker: a container is never shown as a
scalar. -/
theorem stands_serializeValue {levels : ℕ} {ancestors : List (Raw ν)} {raw : Raw ν}
    (hlevels : levels + ancestors.length = config.maxDepth + 1)
    (hleaf : (serializeValue lower view config levels ancestors raw).isLeaf = true) :
    Stands view config ancestors raw (serializeValue lower view config levels ancestors raw) := by
  rcases levels with - | levels
  · have hdeep : config.maxDepth < ancestors.length := by omega
    rw [serializeValue]
    cases hshape : raw.shape view with
    | captureTruncated => exact .uncaptured hshape
    | string s =>
      dsimp only
      split
      · next hmem => exact .redacted hshape hmem
      · exact .deep hdeep
    | null | number | notFinite | boolean | function | array | object | unsupported => exact .deep hdeep
  · rw [serializeValue] at hleaf ⊢
    cases hshape : raw.shape view with
    | captureTruncated => exact .uncaptured hshape
    | null => exact .null hshape
    | string s =>
      dsimp only
      split
      · next hmem => exact .redacted hshape hmem
      · split
        · next hlong => exact .long hshape hlong
        · exact .str hshape
    | number q => exact .num hshape
    | notFinite => exact .unsupported (.inl hshape)
    | boolean b => exact .bool hshape
    | function => exact .fn hshape
    | unsupported => exact .unsupported (.inr hshape)
    | array | object =>
      -- opened unless the traversal is inside it already
      rw [hshape] at hleaf
      dsimp only at hleaf ⊢
      split
      · next hmem => exact .circular (congrArg Shape.isContainer hshape) hmem
      · next hmem =>
        rw [if_neg hmem] at hleaf
        cases hleaf

theorem depicts_serializeValue {levels : ℕ} {ancestors : List (Raw ν)} (raw : Raw ν)
    (hbelow : levels + ancestors.length = config.maxDepth + 1) :
    Depicts lower view config ancestors raw (serializeValue lower view config levels ancestors raw) := by
  induction levels generalizing ancestors raw with
  | zero =>
    rcases serializeValue_cases lower view config 0 ancestors raw with
      ⟨hleaf, -⟩ | ⟨_, _, hlevels, -⟩ | ⟨_, _, hlevels, -⟩
    · exact .leaf (stands_serializeValue hbelow hleaf)
    · cases hlevels
    · cases hlevels
  | succ levels ih =>
    have hnext : levels + (raw :: ancestors).length = config.maxDepth + 1 := by
      rw [List.length_cons]
      omega
    rcases serializeValue_cases lower view config (levels + 1) ancestors raw with
      ⟨hleaf, -⟩ | ⟨n, items, hlevels, hshape, hnode⟩ | ⟨n, members, hlevels, hshape, hnode⟩
    · exact .leaf (stands_serializeValue hbelow hleaf)
    · cases hlevels
      rw [hnode]
      apply Depicts.arr hshape
      · rw [List.length_map]
        exact List.length_take_le' _ _
      · rw [List.length_map]
        exact length_take_lt _ _
      · intro i item child hitem hchild
        rw [List.getElem?_map] at hchild
        obtain ⟨taken, htaken, rfl⟩ := Option.map_eq_some_iff.mp hchild
        cases (getElem?_of_take htaken).symm.trans hitem
        exact ih _ hnext
    · cases hlevels
      rw [hnode]
      apply Depicts.obj hshape
      · rw [List.map_map]
        show (members.take config.maxProps).map Prod.fst <+: members.map Prod.fst
        rw [List.map_take]
        exact List.take_prefix _ _
      · rw [List.length_map]
        exact length_take_lt _ _
      all_goals
        intro i member child hmember hchild hkey
        rw [List.getElem?_map] at hchild
        obtain ⟨taken, htaken, rfl⟩ := Option.map_eq_some_iff.mp hchild
        cases (getElem?_of_take htaken).symm.trans hmember
      · exact if_pos hkey
      · dsimp only
        rw [hkey]
        exact ih _ hnext

end

/-! ### Two runs -/

section

variable {ν μ : Type} {lower : JsString → JsString} {config : SerializerLimits}
variable {view : ν → Shape ν} {view' : μ → Shape μ} {paired : ν → μ → Prop} {redacts : JsString → Bool}

theorem map_eq_of_forall₂ {α β γ : Type*} {R : α → β → Prop} {f : α → γ} {g : β → γ} {l : List α} {m : List β}
    (h : List.Forall₂ R l m) (hfg : ∀ a b, R a b → f a = g b) : l.map f = m.map g := by
  induction h with
  | nil => rfl
  | cons hab _ ih => rw [List.map_cons, List.map_cons, hfg _ _ hab, ih]

theorem Twin.shape (h : Twin redacts view view' paired) {raw : Raw ν} {raw' : Raw μ} (hraw : Raw.Paired paired raw raw') :
    Shape.Alike redacts paired (raw.shape view) (raw'.shape view') := by
  cases hraw with
  | value hpaired => exact h.alike _ _ hpaired
  | getter => exact .string _
  | undefined => exact .unsupported

/-- A container has been met in the one graph when its twin has in the other. -/
theorem Twin.mem_iff (h : Twin redacts view view' paired) {raw : Raw ν} {raw' : Raw μ}
    (hraw : Raw.Paired paired raw raw') (hcontainer : (raw.shape view).isContainer = true)
    {ancestors : List (Raw ν)} {ancestors' : List (Raw μ)}
    (hancestors : List.Forall₂ (Raw.Paired paired) ancestors ancestors') : raw ∈ ancestors ↔ raw' ∈ ancestors' := by
  cases hraw with
  | getter | undefined => cases hcontainer
  | @value v w hpaired =>
    induction hancestors with
    | nil => exact iff_of_false List.not_mem_nil List.not_mem_nil
    | cons hhead _ ih =>
      rw [List.mem_cons, List.mem_cons, ih]
      apply or_congr_left
      cases hhead with
      | value hother => rw [Raw.value.injEq, Raw.value.injEq, h.single _ _ _ _ hcontainer hpaired hother]
      | getter | undefined => exact iff_of_false nofun nofun

/-- What is below redacted keys makes no difference. -/
theorem serializeValue_twin [DecidableEq ν] [DecidableEq μ]
    (h : Twin (fun key => isRedactedKey lower key config.toSerializerConfig) view view' paired)
    (levels : ℕ) {ancestors : List (Raw ν)} {ancestors' : List (Raw μ)} {raw : Raw ν} {raw' : Raw μ}
    (hancestors : List.Forall₂ (Raw.Paired paired) ancestors ancestors') (hraw : Raw.Paired paired raw raw') :
    serializeValue lower view config levels ancestors raw = serializeValue lower view' config levels ancestors' raw' := by
  induction levels generalizing ancestors ancestors' raw raw' with
  | zero =>
    have halike := h.shape hraw
    rw [serializeValue, serializeValue]
    generalize raw.shape view = shape at halike
    generalize raw'.shape view' = shape' at halike
    cases halike <;> rfl
  | succ levels ih =>
    have halike := h.shape hraw
    have hmet := fun hcontainer => h.mem_iff hraw hcontainer hancestors
    have hbelow := List.Forall₂.cons hraw hancestors
    rw [serializeValue, serializeValue]
    generalize raw.shape view = shape at halike hmet
    generalize raw'.shape view' = shape' at halike
    cases halike with
    | array hitems =>
      dsimp only
      rw [hitems.length_eq]
      refine if_congr (hmet rfl) rfl ?_
      rw [map_eq_of_forall₂ (List.forall₂_take config.maxArray hitems) fun _ _ hitem => ih hbelow hitem]
    | object hmembers =>
      dsimp only
      rw [hmembers.length_eq]
      refine if_congr (hmet rfl) rfl ?_
      rw [map_eq_of_forall₂ (List.forall₂_take config.maxProps hmembers) fun member member' hmember => ?_]
      obtain ⟨hkey, hitem⟩ := hmember
      rw [← hkey]
      refine congrArg (Prod.mk member.1) (if_ctx_congr Iff.rfl (fun _ => rfl) fun hvisible => ?_)
      exact ih hbelow (hitem (Bool.eq_false_of_not_eq_true hvisible))
    | captureTruncated | null | string | number | notFinite | boolean | function | unsupported => rfl

end

/-- The serializer keeps to its bounds, marks what it leaves out and nothing else, and shows
nothing of what is below redacted keys. -/
theorem serialize_sanitizes {ν : Type} [DecidableEq ν] {lower : JsString → JsString} {input : SerializerConfigInput}
    {config : SerializerLimits} (hconfig : SerializerLimits.normalize lower input = .ok config)
    (view : ν → Shape ν) (raw : ν) :
    ∃ result, serialize lower view input raw = .ok result ∧ Bounded config result ∧
      Depicts lower view config [] (.value raw) result ∧
        ∀ (μ : Type) [DecidableEq μ] (view' : μ → Shape μ) (paired : ν → μ → Prop) (raw' : μ),
          Twin (fun key => isRedactedKey lower key config.toSerializerConfig) view view' paired → paired raw raw' →
            serialize lower view' input raw' = .ok result := by
  have hserialize : ∀ (μ : Type) [DecidableEq μ] (view : μ → Shape μ) (raw : μ), serialize lower view input raw =
      .ok (serializeValue lower view config (config.maxDepth + 1) [] (.value raw)) := by
    intro μ _ view raw
    unfold serialize
    rw [hconfig]
    rfl
  refine ⟨_, hserialize ν view raw, bounded_serializeValue [] _, depicts_serializeValue _ rfl, ?_⟩
  intro μ _ view' paired raw' htwin hpaired
  rw [hserialize μ view' raw', serializeValue_twin htwin _ .nil (.value hpaired)]

/-! ### A cycle with a password -/

/-- `{ password, self }`, which is its own `self`. -/
def account (password : JsString) : Bool → Shape Bool
  | true => .object [(js "password", .value false), (js "self", .value true)]
  | false => .string password

def defaults : SerializerConfigInput where
  maxDepth := none
  maxArray := none
  maxProps := none
  maxString := none
  redactKeys := []
  redactValues := []

def defaultLimits : SerializerLimits :=
  { normalizeSerializerConfig id [] [] with maxDepth := 3, maxArray := 3, maxProps := 50, maxString := 1024 }

theorem account_sanitized :
    ∃ result, serialize id (account (js "hunter2")) defaults true = .ok result ∧ Bounded defaultLimits result ∧
      Depicts id (account (js "hunter2")) defaultLimits [] (.value true) result ∧
        ∀ (μ : Type) [DecidableEq μ] (view' : μ → Shape μ) (paired : Bool → μ → Prop) (raw' : μ),
          Twin (fun key => isRedactedKey id key defaultLimits.toSerializerConfig) (account (js "hunter2")) view'
              paired → paired true raw' → serialize id view' defaults raw' = .ok result :=
  serialize_sanitizes (show SerializerLimits.normalize id defaults = .ok defaultLimits from rfl) (account (js "hunter2")) true

end NodeAgent
