/-
LiveProbe/DebugTypes.lean

Types in the debug file: `resolve_members` and `classify_type`.

A type is an entry of its unit; typedefs and qualifiers are entries of their own
that refer to what they wrap.  The members of a path are found through any
wrappers (`Along`), but the width is read off the last entry as it is found,
eight bytes when it declares none.  A wrapper declares none.
-/
import LiveProbe.Location

namespace NativeAgent

open Outcome

/-! ### Entries -/

/-- `DW_TAG_*` of a type -/
inductive TypeTag
  | typedef
  | constType
  | volatileType
  | restrictType
  | enumerationType
  | pointerType
  | baseType
  /-- another tag, a structure for one, as it is printed -/
  | other (debug : String)
  deriving DecidableEq, Repr

def TypeTag.isWrapper : TypeTag → Bool
  | .typedef | .constType | .volatileType | .restrictType => true
  | _ => false

/-- `DW_ATE_*` -/
inductive Encoding
  | boolean
  | signed
  | signedChar
  | unsigned
  | unsignedChar
  | address
  | other
  deriving DecidableEq, Repr

/-- `DW_AT_data_member_location` -/
inductive MemberLocation
  | udata (value : ℕ)
  | sdata (value : ℤ)
  | other
  deriving DecidableEq, Repr

/-- An entry below a type. -/
structure TypeChild where
  isMember : Bool
  name : Option String
  dataMemberLocation : MemberLocation
  /-- `DW_AT_type`, when it refers into the unit -/
  type : Option ℕ
  deriving DecidableEq, Repr

structure TypeEntry where
  tag : TypeTag
  name : Option String
  type : Option ℕ
  /-- `DW_AT_byte_size`, when it is an unsigned constant -/
  byteSize : Option ℕ
  encoding : Option Encoding
  children : List TypeChild
  deriving DecidableEq, Repr

/-- `unit.entry`: the entry at an offset, or the error of the reader. -/
abbrev TypeUnit := ℕ → Except String TypeEntry

/-- What a resolution comes to; an error that is nothing is a loop that goes on. -/
abbrev Resolving := Except (Option LocationError)

def unsupported {α : Type} (detail : String) : Resolving α := .error (some (.unsupported detail))

section

variable (unit : TypeUnit)

def readEntry (offset : ℕ) : Resolving TypeEntry :=
  match unit offset with
  | .ok entry => .ok entry
  | .error error => unsupported error

/-! ### Members -/

/-- The inner loop of `resolve_members`. -/
def stripWrappers : ℕ → ℕ → Resolving TypeEntry
  | 0, _ => .error none
  | fuel + 1, offset => do
    let entry ← readEntry unit offset
    if entry.tag.isWrapper then
      match entry.type with
      | none => unsupported "type wrapper has no target"
      | some target => stripWrappers fuel target
    else return entry

/-- `i64::MAX` -/
def i64Max : ℤ := 2 ^ 63 - 1

def memberOffset : MemberLocation → Resolving ℤ
  | .udata value => if (value : ℤ) ≤ i64Max then .ok value else unsupported "member offset"
  | .sdata value => .ok value
  | .other => unsupported "non-constant member offset"

/-- The first member of the name, with its offset and its type. -/
def findMember (name : String) : List TypeChild → Resolving (ℤ × ℕ)
  | [] => unsupported ("variable-not-found: " ++ name)
  | child :: children =>
    if !child.isMember || child.name ≠ some name then findMember name children
    else do
      let offset ← memberOffset child.dataMemberLocation
      match child.type with
      | none => unsupported "member type"
      | some next => return (offset, next)

/-- `i64::checked_add` -/
def checkedAdd (a b : ℤ) : Resolving ℤ :=
  if -2 ^ 63 ≤ a + b ∧ a + b ≤ i64Max then .ok (a + b) else unsupported "member offset overflow"

/-- The width of an entry. -/
def entryWidth (entry : TypeEntry) : Resolving ℕ :=
  let width := entry.byteSize.getD 8
  if width ∈ [1, 2, 4, 8] then .ok width else unsupported "unsupported-type"

/-- `resolve_members`, from a total on: the offset, the width and the last type. -/
def resolveMembersFrom (fuel : ℕ) : List String → ℤ → ℕ → Resolving (ℤ × ℕ × ℕ)
  | [], total, type => do
    let entry ← readEntry unit type
    let width ← entryWidth entry
    return (total, width, type)
  | name :: members, total, type => do
    let entry ← stripWrappers unit fuel type
    let (offset, next) ← findMember name entry.children
    let total ← checkedAdd total offset
    resolveMembersFrom fuel members total next

def resolveMembers (fuel type : ℕ) (members : List String) : Resolving (ℤ × ℕ × ℕ) :=
  resolveMembersFrom unit fuel members 0 type

/-! ### Kinds -/

def isCharacterType : ℕ → ℕ → Resolving Bool
  | 0, _ => .error none
  | fuel + 1, offset => do
    let entry ← readEntry unit offset
    if entry.tag.isWrapper then
      match entry.type with
      | none => unsupported "unsupported-type: character wrapper"
      | some target => isCharacterType fuel target
    else if entry.tag ≠ .baseType then return false
    else
      return entry.encoding = some .signedChar || entry.encoding = some .unsignedChar || entry.name = some "char"

/-- The kind of a base type. -/
def baseKind : Option Encoding → Resolving ValueKind
  | some .boolean => .ok .boolean
  | some .signed | some .signedChar => .ok .signed
  | some .unsigned | some .unsignedChar | some .address => .ok .unsigned
  | _ => unsupported "unsupported-type: base encoding"

def classifyType : ℕ → ℕ → Resolving ValueKind
  | 0, _ => .error none
  | fuel + 1, offset => do
    let entry ← readEntry unit offset
    match entry.tag with
    | .typedef | .constType | .volatileType | .restrictType =>
      match entry.type with
      | none => unsupported "unsupported-type: wrapper has no target"
      | some target => classifyType fuel target
    | .enumerationType =>
      match entry.type with
      | none => return .signed
      | some next => classifyType fuel next
    | .pointerType =>
      match entry.type with
      | none => return .pointer
      | some target =>
        let character ← isCharacterType unit fuel target
        return if character then .cString else .pointer
    | .baseType => baseKind entry.encoding
    | .other debug => unsupported ("unsupported-type: " ++ debug)

/-! ### What the debug file says -/

/-- A type with its wrappers stripped. -/
inductive Strips : ℕ → TypeEntry → Prop
  | entry {t : ℕ} {e : TypeEntry} (h : unit t = .ok e) (hbare : e.tag.isWrapper = false) : Strips t e
  | wrapper {t target : ℕ} {w e : TypeEntry} (h : unit t = .ok w) (hwrapper : w.tag.isWrapper = true)
      (htype : w.type = some target) (hstrips : Strips target e) : Strips t e

/-- The first member of a name. -/
def TypeEntry.member (e : TypeEntry) (name : String) : Option TypeChild :=
  e.children.find? fun child => child.isMember && child.name = some name

/-- `DW_AT_data_member_location` as a number. -/
def MemberLocation.value : MemberLocation → Option ℤ
  | .udata value => some value
  | .sdata value => some value
  | .other => none

/-- The types and the offsets along a path of members. -/
inductive Along : ℕ → List String → List ℤ → ℕ → Prop
  | last (t : ℕ) : Along t [] [] t
  | member {t next final : ℕ} {e : TypeEntry} {child : TypeChild} {name : String} {members : List String}
      {offset : ℤ} {offsets : List ℤ} (hstrips : Strips unit t e) (hmember : e.member name = some child)
      (hoffset : child.dataMemberLocation.value = some offset) (htype : child.type = some next)
      (hrest : Along next members offsets final) : Along t (name :: members) (offset :: offsets) final

/-- The size of a type: what it declares, or that of what it wraps; a pointer that
declares none has the size of an address. -/
inductive HasSize : ℕ → ℕ → Prop
  | declared {t n : ℕ} {e : TypeEntry} (h : unit t = .ok e) (hbare : e.tag.isWrapper = false)
      (hsize : e.byteSize = some n) : HasSize t n
  | pointer {t : ℕ} {e : TypeEntry} (h : unit t = .ok e) (htag : e.tag = .pointerType)
      (hsize : e.byteSize = none) : HasSize t 8
  | enumeration {t next n : ℕ} {e : TypeEntry} (h : unit t = .ok e) (htag : e.tag = .enumerationType)
      (hsize : e.byteSize = none) (htype : e.type = some next) (hnext : HasSize next n) : HasSize t n
  | wrapper {t target n : ℕ} {w : TypeEntry} (h : unit t = .ok w) (hwrapper : w.tag.isWrapper = true)
      (htype : w.type = some target) (htarget : HasSize target n) : HasSize t n

variable {unit}

theorem readEntry_eq_ok {offset : ℕ} {entry : TypeEntry} :
    readEntry unit offset = .ok entry ↔ unit offset = .ok entry := by
  unfold readEntry
  rcases unit offset with error | e
  · exact iff_of_false nofun nofun
  · exact ⟨fun h => congrArg _ (Except.ok.inj h), fun h => congrArg _ (Except.ok.inj h)⟩

/-- A type has one size. -/
theorem HasSize.unique {t m n : ℕ} (hm : HasSize unit t m) (hn : HasSize unit t n) : m = n := by
  induction hm with
  | declared h hbare hsize =>
    cases hn with
    | declared h' hbare' hsize' =>
      cases h.symm.trans h'
      exact Option.some.inj (hsize.symm.trans hsize')
    | pointer h' htag hsize' | enumeration h' htag hsize' =>
      cases h.symm.trans h'
      cases hsize.symm.trans hsize'
    | wrapper h' hwrapper =>
      cases h.symm.trans h'
      exact absurd (hbare.symm.trans hwrapper) Bool.false_ne_true
  | pointer h htag hsize =>
    cases hn with
    | declared h' hbare hsize' =>
      cases h.symm.trans h'
      cases hsize.symm.trans hsize'
    | pointer => rfl
    | enumeration h' htag' =>
      cases h.symm.trans h'
      cases htag.symm.trans htag'
    | wrapper h' hwrapper =>
      cases h.symm.trans h'
      rw [htag] at hwrapper
      cases hwrapper
  | enumeration h htag hsize htype hnext ih =>
    cases hn with
    | declared h' hbare hsize' =>
      cases h.symm.trans h'
      cases hsize.symm.trans hsize'
    | pointer h' htag' =>
      cases h.symm.trans h'
      cases htag.symm.trans htag'
    | enumeration h' htag' hsize' htype' hnext' =>
      cases h.symm.trans h'
      cases htype.symm.trans htype'
      exact ih hnext'
    | wrapper h' hwrapper =>
      cases h.symm.trans h'
      rw [htag] at hwrapper
      cases hwrapper
  | wrapper h hwrapper htype htarget ih =>
    cases hn with
    | declared h' hbare =>
      cases h.symm.trans h'
      exact absurd (hbare.symm.trans hwrapper) Bool.false_ne_true
    | pointer h' htag | enumeration h' htag =>
      cases h.symm.trans h'
      rw [htag] at hwrapper
      cases hwrapper
    | wrapper h' hwrapper' htype' htarget' =>
      cases h.symm.trans h'
      cases htype.symm.trans htype'
      exact ih htarget'

/-! ### What is resolved -/

theorem strips_of_stripWrappers {fuel t : ℕ} {e : TypeEntry} (h : stripWrappers unit fuel t = .ok e) :
    Strips unit t e := by
  induction fuel generalizing t with
  | zero => cases h
  | succ fuel ih =>
    obtain ⟨w, hw, h⟩ := bind_eq_ok.mp h
    have hread := readEntry_eq_ok.mp hw
    split at h
    · next hwrapper =>
      rcases htype : w.type with - | target <;> rw [htype] at h
      · cases h
      · exact .wrapper hread hwrapper htype (ih h)
    · next hbare =>
      cases h
      exact .entry hread (Bool.eq_false_of_not_eq_true hbare)

theorem value_of_memberOffset {location : MemberLocation} {offset : ℤ}
    (h : memberOffset location = .ok offset) : location.value = some offset := by
  cases location with
  | udata value =>
    unfold memberOffset at h
    dsimp only at h
    split at h
    · exact congrArg some (Except.ok.inj h)
    · cases h
  | sdata value => exact congrArg some (Except.ok.inj h)
  | other => cases h

theorem find_of_findMember {name : String} {children : List TypeChild} {offset : ℤ} {next : ℕ}
    (h : findMember name children = .ok (offset, next)) :
    ∃ child, children.find? (fun child => child.isMember && child.name = some name) = some child ∧
      child.dataMemberLocation.value = some offset ∧ child.type = some next := by
  induction children with
  | nil => cases h
  | cons child children ih =>
    have hnegated : (!child.isMember || child.name ≠ some name) =
        !(child.isMember && child.name = some name) := by
      rw [Bool.not_and, decide_not]
    rw [findMember, hnegated] at h
    rw [List.find?_cons]
    cases hfound : child.isMember && child.name = some name with
    | false =>
      rw [hfound] at h
      exact ih h
    | true =>
      rw [hfound] at h
      obtain ⟨value, hvalue, h⟩ := bind_eq_ok.mp h
      rcases htype : child.type with - | target <;> rw [htype] at h
      · cases h
      · cases h
        exact ⟨child, rfl, value_of_memberOffset hvalue, htype⟩

theorem checkedAdd_eq_ok {a b total : ℤ} (h : checkedAdd a b = .ok total) : total = a + b := by
  unfold checkedAdd at h
  split at h
  · exact (Except.ok.inj h).symm
  · cases h

theorem entryWidth_eq_ok {entry : TypeEntry} {width : ℕ} (h : entryWidth entry = .ok width) :
    width = entry.byteSize.getD 8 := by
  unfold entryWidth at h
  dsimp only at h
  split at h
  · exact (Except.ok.inj h).symm
  · cases h

/-- The offset is the sum along the path, and the width is what the last entry declares. -/
theorem along_of_resolveMembersFrom {fuel : ℕ} {members : List String} {total offset : ℤ} {t width final : ℕ}
    (h : resolveMembersFrom unit fuel members total t = .ok (offset, width, final)) :
    (∃ offsets, Along unit t members offsets final ∧ offset = total + offsets.sum) ∧
      ∃ e, unit final = .ok e ∧ width = e.byteSize.getD 8 := by
  induction members generalizing total t with
  | nil =>
    obtain ⟨e, he, h⟩ := bind_eq_ok.mp h
    obtain ⟨w, hw, h⟩ := bind_eq_ok.mp h
    cases h
    exact ⟨⟨[], .last _, (add_zero _).symm⟩, e, readEntry_eq_ok.mp he, entryWidth_eq_ok hw⟩
  | cons name members ih =>
    obtain ⟨e, he, h⟩ := bind_eq_ok.mp h
    obtain ⟨⟨first, next⟩, hfound, h⟩ := bind_eq_ok.mp h
    obtain ⟨sum, hsum, h⟩ := bind_eq_ok.mp h
    obtain ⟨child, hchild, hvalue, htype⟩ := find_of_findMember hfound
    obtain ⟨⟨offsets, halong, hoffset⟩, hwidth⟩ := ih h
    refine ⟨⟨first :: offsets, .member (strips_of_stripWrappers he) hchild hvalue htype halong, ?_⟩, hwidth⟩
    rw [hoffset, checkedAdd_eq_ok hsum, List.sum_cons, add_assoc]

variable (unit) in
/-- A type whose entry tells its size, or would not be of another size than is assumed. -/
inductive SizedByEntry (t : ℕ) : Prop
  | declared {e : TypeEntry} (h : unit t = .ok e) (hbare : e.tag.isWrapper = false)
      (hsize : e.byteSize.isSome)
  | pointer {e : TypeEntry} (h : unit t = .ok e) (htag : e.tag = .pointerType)
  | enumeration {e : TypeEntry} {next : ℕ} (h : unit t = .ok e) (htag : e.tag = .enumerationType)
      (htype : e.type = some next) (hnext : HasSize unit next 8)
  | wrapper {w : TypeEntry} {target : ℕ} (h : unit t = .ok w) (hwrapper : w.tag.isWrapper = true)
      (htype : w.type = some target) (htarget : HasSize unit target (w.byteSize.getD 8))

theorem hasSize_iff_sizedByEntry {t : ℕ} {e : TypeEntry} (h : unit t = .ok e) :
    HasSize unit t (e.byteSize.getD 8) ↔ SizedByEntry unit t := by
  constructor
  · intro hsized
    generalize hwidth : e.byteSize.getD 8 = width at hsized
    cases hsized with
    | declared h' hbare hsize =>
      cases h.symm.trans h'
      exact .declared h hbare (Option.isSome_iff_exists.mpr ⟨_, hsize⟩)
    | pointer h' htag =>
      cases h.symm.trans h'
      exact .pointer h htag
    | enumeration h' htag hsize htype hnext =>
      cases h.symm.trans h'
      rw [hsize] at hwidth
      subst hwidth
      exact .enumeration h htag htype hnext
    | wrapper h' hwrapper htype htarget =>
      cases h.symm.trans h'
      subst hwidth
      exact .wrapper h hwrapper htype htarget
  · intro hentry
    cases hentry with
    | declared h' hbare hsize =>
      cases h.symm.trans h'
      obtain ⟨n, hn⟩ := Option.isSome_iff_exists.mp hsize
      rw [hn]
      exact .declared h hbare hn
    | pointer h' htag =>
      cases h.symm.trans h'
      rcases hsize : e.byteSize with - | n
      · exact .pointer h htag hsize
      · exact .declared h (by rw [htag]; rfl) hsize
    | enumeration h' htag htype hnext =>
      cases h.symm.trans h'
      rcases hsize : e.byteSize with - | n
      · exact .enumeration h htag hsize htype hnext
      · exact .declared h (by rw [htag]; rfl) hsize
    | wrapper h' hwrapper htype htarget =>
      cases h.symm.trans h'
      exact .wrapper h hwrapper htype htarget

/-- The offset of a path is the sum of those of its members; its width is the size of its
type exactly when the last entry tells that size. -/
theorem layout_iff {fuel t width final : ℕ} {members : List String} {offset : ℤ}
    (h : resolveMembers unit fuel t members = .ok (offset, width, final)) :
    ((∃ offsets, Along unit t members offsets final ∧ offset = offsets.sum) ∧ HasSize unit final width) ↔
      SizedByEntry unit final := by
  obtain ⟨⟨offsets, halong, hoffset⟩, e, he, rfl⟩ := along_of_resolveMembersFrom h
  rw [zero_add] at hoffset
  rw [and_iff_right ⟨offsets, halong, hoffset⟩]
  exact hasSize_iff_sizedByEntry he

end

/-! ### A typedef of an int -/

/-- `struct { uint32_t id; const size_t *next; }`, and the types it is made of. -/
def sampleUnit : TypeUnit
  | 1 => .ok ⟨.other "DW_TAG_structure_type", some "order", none, some 16, none,
      [⟨true, some "id", .udata 0, some 2⟩, ⟨true, some "total", .udata 8, some 4⟩]⟩
  | 2 => .ok ⟨.typedef, some "uint32_t", some 3, none, none, []⟩
  | 3 => .ok ⟨.baseType, some "unsigned int", none, some 4, some .unsigned, []⟩
  | 4 => .ok ⟨.constType, none, some 5, none, none, []⟩
  | 5 => .ok ⟨.baseType, some "long unsigned int", none, some 8, some .unsigned, []⟩
  | _ => .error "no entry"

/-- A constant of eight bytes. -/
theorem constant_layout :
    resolveMembers sampleUnit 2 1 ["total"] = .ok (8, 8, 4) ∧ SizedByEntry sampleUnit 4 ∧
      ((∃ offsets, Along sampleUnit 1 ["total"] offsets 4 ∧ 8 = offsets.sum) ∧ HasSize sampleUnit 4 8) := by
  have hresolved : resolveMembers sampleUnit 2 1 ["total"] = .ok (8, 8, 4) := rfl
  have hentry : SizedByEntry sampleUnit 4 := .wrapper rfl rfl rfl (.declared rfl rfl rfl)
  exact ⟨hresolved, hentry, (layout_iff hresolved).mpr hentry⟩

/-- A typedef of four bytes is read with eight. -/
theorem typedef_eight_bytes :
    resolveMembers sampleUnit 2 1 ["id"] = .ok (0, 8, 2) ∧
      classifyType sampleUnit 2 2 = .ok .unsigned ∧ HasSize sampleUnit 2 4 ∧ ¬ HasSize sampleUnit 2 8 := by
  have hsize : HasSize sampleUnit 2 4 := .wrapper rfl rfl rfl (.declared rfl rfl rfl)
  refine ⟨rfl, rfl, hsize, fun height => ?_⟩
  exact absurd (hsize.unique height) (by decide)

end NativeAgent
