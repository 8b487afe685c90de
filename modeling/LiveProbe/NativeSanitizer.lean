/-
LiveProbe/NativeSanitizer.lean

What the sanitizer of the native agent lets out, and when it returns at all.

Lengths are bytes, and `String::truncate` panics within a character.  The one
fact to see is which strings are cut: the count of properties runs through a tree
in the order of its entries, whatever their values are, so the values looked at
are the first `max_properties` of that order (`walkMembers`), less what lies
under a redacted key or too deep.  All other bounds hold whenever there is a result.
-/
import LiveProbe.NativeReport
import Mathlib.Data.String.Basic

namespace NativeAgent

/-! ### Strings -/

theorem utf8Len_truncateBytes {l r : List Char} {n : ℕ} (h : truncateBytes l n = some r) :
    String.utf8Len r ≤ n := by
  induction l generalizing n r with
  | nil =>
    cases n with
    | zero =>
      obtain rfl := Option.some.inj h
      exact Nat.le_refl _
    | succ n =>
      obtain rfl := Option.some.inj h
      exact Nat.zero_le _
  | cons c t ih =>
    cases n with
    | zero =>
      obtain rfl := Option.some.inj h
      exact Nat.le_refl _
    | succ n =>
      unfold truncateBytes at h
      split_ifs at h with hc
      obtain ⟨rest, hrest, rfl⟩ := Option.map_eq_some_iff.mp h
      have hle := ih hrest
      rw [String.utf8Len_cons]
      omega

/-- The bytes are those of some of the first characters. -/
theorem isSome_truncateBytes {l : List Char} {n : ℕ} (hn : n ≤ String.utf8Len l) :
    (truncateBytes l n).isSome ↔ ∃ r t, l = r ++ t ∧ String.utf8Len r = n := by
  induction l generalizing n with
  | nil =>
    obtain rfl : n = 0 := Nat.le_zero.mp hn
    exact ⟨fun _ => ⟨[], [], rfl, rfl⟩, fun _ => rfl⟩
  | cons c t ih =>
    cases n with
    | zero => exact ⟨fun _ => ⟨[], c :: t, rfl, rfl⟩, fun _ => rfl⟩
    | succ n =>
      rw [String.utf8Len_cons] at hn
      rw [truncateBytes]
      split
      · next hc =>
        rw [Option.isSome_map, ih (by omega)]
        constructor
        · rintro ⟨r, t', rfl, hr⟩
          refine ⟨c :: r, t', rfl, ?_⟩
          rw [String.utf8Len_cons, hr]
          omega
        · rintro ⟨r, t', hl, hr⟩
          cases r with
          | nil => cases hr
          | cons d r =>
            obtain ⟨rfl, rfl⟩ := List.cons.inj hl
            refine ⟨r, t', rfl, ?_⟩
            rw [String.utf8Len_cons] at hr
            omega
      · next hc =>
        refine ⟨fun h => absurd h Bool.false_ne_true, ?_⟩
        rintro ⟨r, t', hl, hr⟩
        cases r with
        | nil => cases hr
        | cons d r =>
          obtain ⟨rfl, -⟩ := List.cons.inj hl
          rw [String.utf8Len_cons] at hr
          omega

/-- A text that need not be cut at a length, or can be. -/
def Cuts (n : ℕ) (s : String) : Prop := s.utf8ByteSize ≤ n ∨ (⟨n⟩ : String.Pos.Raw).IsValid s

instance (n : ℕ) (s : String) : Decidable (Cuts n s) :=
  inferInstanceAs (Decidable (s.utf8ByteSize ≤ n ∨ (⟨n⟩ : String.Pos.Raw).IsValid s))

theorem isSome_truncate {s : String} {n : ℕ} (hn : n < s.utf8ByteSize) :
    (truncateBytes s.toList n).isSome ↔ Cuts n s := by
  have hle : n ≤ String.utf8Len s.toList := by
    rw [String.utf8Len_toList]
    exact hn.le
  rw [isSome_truncateBytes hle, Cuts, or_iff_right (Nat.not_le.mpr hn), String.Pos.Raw.isValid_iff_exists_append]
  constructor
  · rintro ⟨r, t, hl, hr⟩
    refine ⟨String.ofList r, String.ofList t, ?_, String.Pos.Raw.ext ?_⟩
    · rw [← String.ofList_append, ← hl, String.ofList_toList]
    · show n = (String.ofList r).utf8ByteSize
      rw [← String.utf8Len_toList, String.toList_ofList, hr]
  · rintro ⟨s₁, s₂, rfl, hend⟩
    refine ⟨s₁.toList, s₂.toList, String.toList_append .., ?_⟩
    rw [String.utf8Len_toList]
    exact (congrArg String.Pos.Raw.byteIdx hend).symm

/-! ### The order in which values are looked at -/

section

variable (codec : Codec) (config : SerializerConfig)

mutual

/-- The entries below a value, in their order: of an object that is neither redacted nor too deep. -/
def walkNode (key : String) (value : OutboundNode) (depth : ℕ) : List (String × OutboundNode) :=
  match value with
  | .obj c => if keyIsRedacted key config ∨ config.maxDepth ≤ depth then [] else walkMembers c (depth + 1)
  | _ => []

/-- The entries of a tree in their order, each before those below it. -/
def walkMembers (members : List (String × OutboundNode)) (depth : ℕ) : List (String × OutboundNode) :=
  match members with
  | [] => []
  | (key, value) :: rest => (key, value) :: (walkNode key value depth ++ walkMembers rest depth)

end

/-- A string that is redacted, or that can be cut where it has to. -/
def WholeEntry (e : String × OutboundNode) : Prop :=
  match e.2 with
  | .str v => keyIsRedacted e.1 config ∨ v ∈ config.redactValues ∨ Cuts config.maxString v
  | _ => True

/-! ### Bounds of what is let out -/

mutual

/-- How many objects are nested in a node. -/
def OutboundNode.nesting : OutboundNode → ℕ
  | .obj c => membersNesting c + 1
  | _ => 0

def membersNesting : List (String × OutboundNode) → ℕ
  | [] => 0
  | (_, value) :: rest => max value.nesting (membersNesting rest)

end

mutual

/-- The entries below a node. -/
def OutboundNode.entries : OutboundNode → ℕ
  | .obj c => membersEntries c
  | _ => 0

def membersEntries : List (String × OutboundNode) → ℕ
  | [] => 0
  | (_, value) :: rest => value.entries + 1 + membersEntries rest

end

mutual

/-- The string values of a node. -/
def OutboundNode.texts : OutboundNode → List String
  | .str v => [v]
  | .obj c => membersTexts c
  | _ => []

def membersTexts : List (String × OutboundNode) → List String
  | [] => []
  | (_, value) :: rest => value.texts ++ membersTexts rest

end

variable {codec config}

/-- What is let out of a value that is looked at when `properties` were, at a depth. -/
structure LetOut (config : SerializerConfig) (walk : List (String × OutboundNode)) (depth properties after : ℕ)
    (entries nesting : ℕ) (texts : List String) : Prop where
  after_eq : after = properties + min (config.maxProperties - properties) walk.length
  entries_eq : after = properties + entries
  nesting_le : nesting ≤ config.maxDepth - depth
  texts_le : ∀ s ∈ texts, s.utf8ByteSize ≤ config.maxString

/-- Of a value without entries. -/
theorem LetOut.leaf (depth properties : ℕ) {texts : List String}
    (h : ∀ s ∈ texts, s.utf8ByteSize ≤ config.maxString) :
    LetOut config [] depth properties properties 0 0 texts where
  after_eq := by rw [List.length_nil, Nat.min_zero, Nat.add_zero]
  entries_eq := rfl
  nesting_le := Nat.zero_le _
  texts_le := h

theorem walkNode_of_leaf {key : String} {value : OutboundNode} {depth : ℕ} (h : ∀ c, value ≠ .obj c) :
    walkNode config key value depth = [] := by
  rw [walkNode]
  exact h

theorem walkNode_of_redacted {key : String} {value : OutboundNode} {depth : ℕ}
    (h : keyIsRedacted key config = true) : walkNode config key value depth = [] := by
  cases value with
  | obj c =>
    rw [walkNode]
    exact if_pos (.inl h)
  | str v | num v | bool v | null | redacted | truncated v | unavailable v => exact walkNode_of_leaf nofun

mutual

theorem letOut_node (key : String) (value : OutboundNode) (depth properties : ℕ) (node : OutboundNode)
    (after : ℕ) (h : sanitizeNode codec config key value depth properties = some (node, after)) :
    LetOut config (walkNode config key value depth) depth properties after node.entries node.nesting
      node.texts := by
  unfold sanitizeNode at h
  by_cases hkey : keyIsRedacted key config
  · rw [if_pos hkey] at h
    obtain ⟨rfl, rfl⟩ := Prod.mk.inj (Option.some.inj h)
    rw [walkNode_of_redacted hkey]
    exact .leaf depth properties nofun
  rw [if_neg hkey] at h
  by_cases hvalue : (exactValue codec value).any (· ∈ config.redactValues)
  · rw [if_pos hvalue] at h
    obtain ⟨rfl, rfl⟩ := Prod.mk.inj (Option.some.inj h)
    cases value with
    | obj c => cases hvalue
    | str v | num v | bool v | null | redacted | truncated v | unavailable v =>
      exact .leaf depth properties nofun
  rw [if_neg hvalue] at h
  cases value with
  | str v =>
    dsimp only at h
    split_ifs at h with hlong
    · obtain ⟨r, hr, hnode⟩ := Option.map_eq_some_iff.mp h
      obtain ⟨rfl, rfl⟩ := Prod.mk.inj hnode
      refine .leaf depth properties fun s hs => ?_
      obtain rfl := List.mem_singleton.mp hs
      rw [← String.utf8Len_toList, String.toList_ofList]
      exact utf8Len_truncateBytes hr
    · obtain ⟨rfl, rfl⟩ := Prod.mk.inj (Option.some.inj h)
      refine .leaf depth properties fun s hs => ?_
      obtain rfl := List.mem_singleton.mp hs
      exact Nat.le_of_not_lt hlong
  | obj c =>
    dsimp only at h
    split_ifs at h with hdeep
    · obtain ⟨rfl, rfl⟩ := Prod.mk.inj (Option.some.inj h)
      rw [walkNode, if_pos (.inr hdeep)]
      exact .leaf depth properties nofun
    · obtain ⟨⟨children, last⟩, hchildren, hnode⟩ := Option.map_eq_some_iff.mp h
      obtain ⟨rfl, rfl⟩ := Prod.mk.inj hnode
      have hout := letOut_members c (depth + 1) properties children last hchildren
      rw [walkNode, if_neg (not_or.mpr ⟨hkey, hdeep⟩)]
      refine ⟨hout.after_eq, hout.entries_eq, ?_, hout.texts_le⟩
      have hnesting := hout.nesting_le
      show membersNesting children + 1 ≤ _
      omega
  | num v | bool v | null | redacted | truncated v | unavailable v =>
    obtain ⟨rfl, rfl⟩ := Prod.mk.inj (Option.some.inj h)
    exact .leaf depth properties nofun

theorem letOut_members (members : List (String × OutboundNode)) (depth properties : ℕ)
    (children : List (String × OutboundNode)) (after : ℕ)
    (h : sanitizeMembers codec config members depth properties = some (children, after)) :
    LetOut config (walkMembers config members depth) depth properties after (membersEntries children)
      (membersNesting children) (membersTexts children) := by
  cases members with
  | nil =>
    obtain ⟨rfl, rfl⟩ := Prod.mk.inj (Option.some.inj h)
    exact .leaf depth properties nofun
  | cons member rest =>
    obtain ⟨key, value⟩ := member
    unfold sanitizeMembers at h
    split_ifs at h with hfull
    · obtain ⟨rfl, rfl⟩ := Prod.mk.inj (Option.some.inj h)
      refine ⟨?_, rfl, Nat.zero_le _, nofun⟩
      rw [Nat.sub_eq_zero_of_le hfull, Nat.zero_min, Nat.add_zero]
    · obtain ⟨⟨node, between⟩, hnode, h⟩ := Option.bind_eq_some_iff.mp h
      obtain ⟨⟨others, last⟩, hothers, h⟩ := Option.bind_eq_some_iff.mp h
      obtain ⟨rfl, rfl⟩ := Prod.mk.inj (Option.some.inj h)
      have hfirst := letOut_node key value depth (properties + 1) node between hnode
      have hrest := letOut_members rest depth between others last hothers
      constructor
      · rw [walkMembers, List.length_cons, List.length_append, hrest.after_eq, hfirst.after_eq]
        omega
      · show last = properties + (node.entries + 1 + membersEntries others)
        rw [hrest.entries_eq, hfirst.entries_eq]
        omega
      · exact max_le hfirst.nesting_le hrest.nesting_le
      · intro s hs
        exact (List.mem_append.mp hs).elim (hfirst.texts_le s) (hrest.texts_le s)

end

/-! ### When there is a result -/

mutual

/-- A value is cut where it can be, and so is every entry below it that is looked at. -/
theorem isSome_sanitizeNode (key : String) (value : OutboundNode) (depth properties : ℕ) :
    (sanitizeNode codec config key value depth properties).isSome ↔
      WholeEntry config (key, value) ∧
        ∀ e ∈ (walkNode config key value depth).take (config.maxProperties - properties), WholeEntry config e := by
  unfold sanitizeNode
  by_cases hkey : keyIsRedacted key config
  · rw [if_pos hkey, walkNode_of_redacted hkey, List.take_nil]
    refine iff_of_true rfl ⟨?_, List.forall_mem_nil _⟩
    cases value with
    | str v => exact .inl hkey
    | obj c | num v | bool v | null | redacted | truncated v | unavailable v => trivial
  rw [if_neg hkey]
  have hleaf : (∀ c, value ≠ .obj c) → walkNode config key value depth = [] := walkNode_of_leaf
  by_cases hvalue : (exactValue codec value).any (· ∈ config.redactValues)
  · rw [if_pos hvalue]
    cases value with
    | obj c => cases hvalue
    | str v =>
      rw [hleaf nofun, List.take_nil]
      exact iff_of_true rfl ⟨.inr (.inl (of_decide_eq_true hvalue)), List.forall_mem_nil _⟩
    | num v | bool v | null | redacted | truncated v | unavailable v =>
      rw [hleaf nofun, List.take_nil]
      exact iff_of_true rfl ⟨trivial, List.forall_mem_nil _⟩
  rw [if_neg hvalue]
  cases value with
  | str v =>
    have hkept : v ∉ config.redactValues := fun h => hvalue (decide_eq_true h)
    have hwhole : WholeEntry config (key, .str v) ↔ Cuts config.maxString v := by
      show (_ ∨ _ ∨ _) ↔ _
      rw [or_iff_right hkey, or_iff_right hkept]
    rw [hwhole, hleaf nofun, List.take_nil, and_iff_left (List.forall_mem_nil _)]
    dsimp only
    split
    · next hlong => rw [Option.isSome_map, isSome_truncate hlong]
    · next hshort => exact iff_of_true rfl (.inl (Nat.le_of_not_lt hshort))
  | obj c =>
    dsimp only
    rw [walkNode]
    split
    · next hdeep =>
      rw [if_pos (.inr hdeep), List.take_nil]
      exact iff_of_true rfl ⟨trivial, List.forall_mem_nil _⟩
    · next hdeep =>
      rw [if_neg (not_or.mpr ⟨hkey, hdeep⟩), Option.isSome_map, isSome_sanitizeMembers c (depth + 1) properties]
      exact (and_iff_right trivial).symm
  | num v | bool v | null | redacted | truncated v | unavailable v =>
    rw [hleaf nofun, List.take_nil]
    exact iff_of_true rfl ⟨trivial, List.forall_mem_nil _⟩

theorem isSome_sanitizeMembers (members : List (String × OutboundNode)) (depth properties : ℕ) :
    (sanitizeMembers codec config members depth properties).isSome ↔
      ∀ e ∈ (walkMembers config members depth).take (config.maxProperties - properties), WholeEntry config e := by
  cases members with
  | nil =>
    rw [walkMembers, List.take_nil]
    exact iff_of_true rfl (List.forall_mem_nil _)
  | cons member rest =>
    obtain ⟨key, value⟩ := member
    unfold sanitizeMembers
    split
    · next hfull =>
      rw [Nat.sub_eq_zero_of_le hfull, List.take_zero]
      exact iff_of_true rfl (List.forall_mem_nil _)
    · next hfull =>
      have hleft : config.maxProperties - properties = config.maxProperties - (properties + 1) + 1 := by omega
      have hnode := isSome_sanitizeNode key value depth (properties + 1)
      rw [walkMembers, hleft, List.take_succ_cons, List.forall_mem_cons, List.take_append, List.forall_mem_append,
        ← and_assoc, ← hnode]
      rcases hfirst : sanitizeNode codec config key value depth (properties + 1) with - | ⟨node, between⟩
      · exact iff_of_false Bool.false_ne_true fun h => Bool.false_ne_true h.1
      · have hbetween := (letOut_node key value depth (properties + 1) node between hfirst).after_eq
        have hothers := isSome_sanitizeMembers rest depth between
        have hbudget : config.maxProperties - between =
            config.maxProperties - (properties + 1) - (walkNode config key value depth).length := by omega
        rw [hbudget] at hothers
        rw [and_iff_right (show (some (node, between)).isSome = true from rfl), ← hothers]
        show ((sanitizeMembers codec config rest depth between).bind _).isSome ↔ _
        rw [Option.isSome_bind]
        rcases sanitizeMembers codec config rest depth between with - | ⟨others, last⟩ <;> rfl

end

/-! ### Totality -/

/-- Bounds of the values that are let out: the marker stands for more than `max_bytes`. -/
structure WithinBounds (codec : Codec) (config : SerializerConfig) (children : List (String × OutboundNode)) :
    Prop where
  texts : ∀ s ∈ membersTexts children, s.utf8ByteSize ≤ config.maxString
  nesting : membersNesting children ≤ config.maxDepth
  entries : (membersEntries children ≤ config.maxProperties ∧ codec.membersSize children ≤ config.maxBytes) ∨
    children = [("$truncated", .truncated "props")]

/-- The values and the detail are let out, within their bounds. -/
structure Sanitizes (codec : Codec) (config : SerializerConfig) (values : List (String × OutboundNode))
    (detail : Option String) : Prop where
  values : ∃ children, sanitizeValues codec config values = some children ∧ WithinBounds codec config children
  detail : ∃ sanitized, sanitizeDiagnosticDetail config detail = some sanitized ∧
    ∀ s ∈ sanitized, s.utf8ByteSize ≤ config.maxString

/-- A detail that is not sent for what it holds. -/
def detailIsRedacted (config : SerializerConfig) (value : String) : Prop :=
  config.redactKeys.any (fun pattern => asciiLowercase pattern <:+: asciiLowercase value) ∨
    config.redactValues.any fun secret => secret ≠ "" ∧ secret.toList <:+: value.toList

instance (config : SerializerConfig) (value : String) : Decidable (detailIsRedacted config value) :=
  inferInstanceAs (Decidable (_ ∨ _))

/-- What is cut has a character end at the bound, and the text for a redacted detail fits. -/
structure Cuttable (config : SerializerConfig) (values : List (String × OutboundNode)) (detail : Option String) :
    Prop where
  values : ∀ e ∈ (walkMembers config values 0).take config.maxProperties, WholeEntry config e
  detail : ∀ value ∈ detail,
    if detailIsRedacted config value then "[redacted]".utf8ByteSize ≤ config.maxString
    else Cuts config.maxString value

theorem withinBounds_of_sanitizeValues {values children : List (String × OutboundNode)}
    (h : sanitizeValues codec config values = some children) : WithinBounds codec config children := by
  obtain ⟨⟨kept, properties⟩, hkept, h⟩ := Option.bind_eq_some_iff.mp h
  have hout := letOut_members values 0 0 kept properties hkept
  dsimp only at h
  split_ifs at h with hlarge
  · obtain rfl := Option.some.inj h
    exact ⟨nofun, Nat.zero_le _, .inr rfl⟩
  · obtain rfl := Option.some.inj h
    refine ⟨hout.texts_le, hout.nesting_le, .inl ⟨?_, Nat.le_of_not_lt hlarge⟩⟩
    have hafter := hout.after_eq
    have hentries := hout.entries_eq
    omega

theorem isSome_sanitizeValues (values : List (String × OutboundNode)) :
    (sanitizeValues codec config values).isSome ↔
      ∀ e ∈ (walkMembers config values 0).take config.maxProperties, WholeEntry config e := by
  have hmembers := @isSome_sanitizeMembers codec config values 0 0
  rw [Nat.sub_zero] at hmembers
  rw [← hmembers, sanitizeValues]
  rcases sanitizeMembers codec config values 0 0 with - | ⟨children, properties⟩
  · rfl
  · show (if _ then some _ else some _ : Option _).isSome ↔ _
    split <;> rfl

theorem sanitizeDiagnosticDetail_iff (value : String) :
    (∃ sanitized, sanitizeDiagnosticDetail config (some value) = some sanitized ∧
        ∀ s ∈ sanitized, s.utf8ByteSize ≤ config.maxString) ↔
      if detailIsRedacted config value then "[redacted]".utf8ByteSize ≤ config.maxString
      else Cuts config.maxString value := by
  by_cases hredacted : detailIsRedacted config value
  · have hdetail : sanitizeDiagnosticDetail config (some value) = some (some "[redacted]") := if_pos hredacted
    rw [if_pos hredacted, hdetail]
    constructor
    · rintro ⟨sanitized, hsome, hle⟩
      exact hle _ (Option.some.inj hsome).symm
    · intro hle
      refine ⟨_, rfl, fun s hs => ?_⟩
      obtain rfl := Option.some.inj hs
      exact hle
  · rw [if_neg hredacted]
    by_cases hlong : config.maxString < value.utf8ByteSize
    · have hdetail : sanitizeDiagnosticDetail config (some value) =
          (truncateBytes value.toList config.maxString).map fun v => some (String.ofList v) :=
        (if_neg hredacted).trans (if_pos hlong)
      rw [hdetail, ← isSome_truncate hlong]
      rcases hcut : truncateBytes value.toList config.maxString with - | r
      · exact iff_of_false (fun ⟨_, h, _⟩ => nomatch h) Bool.false_ne_true
      · refine iff_of_true ⟨_, rfl, fun s hs => ?_⟩ rfl
        obtain rfl := Option.some.inj hs
        rw [← String.utf8Len_toList, String.toList_ofList]
        exact utf8Len_truncateBytes hcut
    · have hdetail : sanitizeDiagnosticDetail config (some value) = some (some value) :=
        (if_neg hredacted).trans (if_neg hlong)
      have hle := Nat.le_of_not_lt hlong
      rw [hdetail]
      refine iff_of_true ⟨_, rfl, fun s hs => ?_⟩ (.inl hle)
      obtain rfl := Option.some.inj hs
      exact hle

/-- The sanitizer returns, within its bounds, exactly when every string that it cuts can be cut. -/
theorem sanitizes_iff (codec : Codec) (config : SerializerConfig) (values : List (String × OutboundNode))
    (detail : Option String) : Sanitizes codec config values detail ↔ Cuttable config values detail := by
  constructor
  · rintro ⟨⟨children, hchildren, -⟩, hdetail⟩
    refine ⟨(isSome_sanitizeValues values).mp (Option.isSome_iff_exists.mpr ⟨children, hchildren⟩), ?_⟩
    intro value hvalue
    obtain rfl : detail = some value := hvalue
    exact (sanitizeDiagnosticDetail_iff value).mp hdetail
  · rintro ⟨hvalues, hdetail⟩
    refine ⟨?_, ?_⟩
    · obtain ⟨children, hchildren⟩ := Option.isSome_iff_exists.mp ((isSome_sanitizeValues values).mpr hvalues)
      exact ⟨children, hchildren, withinBounds_of_sanitizeValues hchildren⟩
    · cases detail with
      | none => exact ⟨none, rfl, nofun⟩
      | some value => exact (sanitizeDiagnosticDetail_iff value).mpr (hdetail value rfl)

/-- Sizes and texts of the values below. -/
def nameCodec : Codec where
  numberText z := toString z
  membersSize _ := 28
  eventSize _ := 0

/-- A letter of two bytes where one byte is allowed: the agent panics. -/
theorem accent_panics : ¬ Sanitizes nameCodec { maxString := 1 } [("name", .str "é")] none := by
  rintro ⟨⟨children, hchildren, -⟩, -⟩
  have hnone : sanitizeValues nameCodec { maxString := 1 } [("name", .str "é")] = none := by
    decide
  rw [hnone] at hchildren
  cases hchildren

end

end NativeAgent
