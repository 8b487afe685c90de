/-
LiveProbe/DebugScopes.lean

Names in the debug file: the scope walk of `resolve_variable`.

The entries of a unit are visited in depth-first order, with a stack of the scopes
above the entry (`Tracks` says that it is).  The walk ends at the first declaration
of the name whose scopes all hold the address; a scope without ranges passes for
one that does.  A declaration further in comes later, and so does one of a later
unit.
-/
import LiveProbe.DebugTypes

namespace NativeAgent

open Outcome

/-! ### The debug file -/

/-- `DW_TAG_*` of an entry -/
inductive EntryTag
  | subprogram
  | inlinedSubroutine
  | lexicalBlock
  | var
  | formalParameter
  | other
  deriving DecidableEq, Repr

structure PcRange where
  low : ℕ
  high : ℕ
  deriving DecidableEq, Repr

def PcRange.covers (range : PcRange) (pc : ℕ) : Bool := range.low ≤ pc && pc < range.high

/-- The value of `DW_AT_location` or `DW_AT_frame_base`. -/
inductive LocationAttribute
  | exprloc (expression : List Operation)
  | locations (items : List (Except String (PcRange × List Operation)))
  /-- a form that is no list of locations -/
  | otherForm
  | unread (error : String)
  deriving Repr

structure DebugEntry where
  tag : EntryTag
  ranges : Except String (List (Except String PcRange))
  name : Except String (Option String)
  /-- `DW_AT_type`, when it refers into the unit -/
  type : Option ℕ
  location : Option LocationAttribute
  frameBase : Option LocationAttribute

inductive Die
  | node (entry : DebugEntry) (children : List Die)
  /-- The reader fails here. -/
  | unread (error : String)

structure DebugUnit where
  types : TypeUnit
  root : Die

structure DebugFile where
  units : List (Except String DebugUnit)
  /-- the rule of the unwind tables at an address -/
  cfa : ℕ → Except LocationError CfaRule

/-- An entry and its place: its unit, and the child to take at each level. -/
structure PlacedEntry where
  depth : ℕ
  place : List ℕ
  entry : DebugEntry

def DebugEntry.isScope (entry : DebugEntry) : Bool :=
  match entry.tag with
  | .subprogram | .inlinedSubroutine | .lexicalBlock => true
  | _ => false

def DebugEntry.isVariable (entry : DebugEntry) : Bool :=
  match entry.tag with
  | .var | .formalParameter => true
  | _ => false

/-- An entry as it is visited, with the scopes above it from the nearest one out.  The
walk reads the depth and the entry; the scopes are what its stack has to come to. -/
structure Visit extends PlacedEntry where
  scopes : List PlacedEntry

/-- The scopes above the children of an entry. -/
def PlacedEntry.scopesBelow (placed : PlacedEntry) (scopes : List PlacedEntry) : List PlacedEntry :=
  if placed.entry.isScope then placed :: scopes else scopes

mutual

/-- `next_dfs` over an entry and what is below it. -/
def Die.visits (depth : ℕ) (place : List ℕ) (scopes : List PlacedEntry) : Die → List (Except String Visit)
  | .unread error => [.error error]
  | .node entry children =>
    let placed : PlacedEntry := ⟨depth, place, entry⟩
    .ok ⟨placed, scopes⟩ :: Die.visitsAll (depth + 1) place 0 (placed.scopesBelow scopes) children

def Die.visitsAll (depth : ℕ) (place : List ℕ) (child : ℕ) (scopes : List PlacedEntry) :
    List Die → List (Except String Visit)
  | [] => []
  | die :: dies => die.visits depth (place ++ [child]) scopes ++ Die.visitsAll depth place (child + 1) scopes dies

end

/-! ### The walk -/

/-- An error of the location is one of the resolution. -/
def located {α : Type} : Except LocationError α → Resolving α
  | .ok a => .ok a
  | .error error => .error (some error)

section

variable (pc : ℕ)

def coveringExpression :
    List (Except String (PcRange × List Operation)) → Except LocationError (List Operation)
  | [] => .error .optimizedOut
  | .error error :: _ => .error (.unsupported error)
  | .ok (range, expression) :: items =>
    if range.covers pc then .ok expression else coveringExpression items

/-- `attribute_expression_at_pc` -/
def LocationAttribute.expressionAt : LocationAttribute → Except LocationError (List Operation)
  | .exprloc expression => .ok expression
  | .unread error => .error (.unsupported error)
  | .otherForm => .error (.unsupported "unsupported location form")
  | .locations items => coveringExpression pc items

def rangesContain (saw : Bool) : List (Except String PcRange) → Except LocationError Bool
  | [] => .ok !saw
  | .error error :: _ => .error (.unsupported error)
  | .ok range :: ranges => if range.covers pc then .ok true else rangesContain true ranges

/-- `die_contains` -/
def DebugEntry.dieContains (entry : DebugEntry) : Except LocationError Bool :=
  match entry.ranges with
  | .error error => .error (.unsupported error)
  | .ok ranges => rangesContain pc false ranges

/-- A scope on the stack. -/
structure ScopeFrame where
  depth : ℕ
  active : Bool
  frameBase : Option (List LocationOperation)

/-- The scopes that are left once an entry is met at a depth; the top comes first. -/
def popScopes (depth : ℕ) (scopes : List ScopeFrame) : List ScopeFrame :=
  scopes.dropWhile fun scope => depth ≤ scope.depth

def parentActive : List ScopeFrame → Bool
  | [] => true
  | scope :: _ => scope.active

/-- The frame base of the nearest active scope that has one. -/
def nearestFrameBase (scopes : List ScopeFrame) : Option (List LocationOperation) :=
  scopes.findSome? fun scope => if scope.active then scope.frameBase else none

variable (cfa : Except LocationError CfaRule)

/-- The frame base of a scope, read when the scope is entered. -/
def DebugEntry.readFrameBase (entry : DebugEntry) (active : Bool) :
    Except LocationError (Option (List LocationOperation)) :=
  if active then
    match entry.frameBase with
    | none => .ok none
    | some value => do
      let expression ← value.expressionAt pc
      let base ← decodeFrameBaseExpression { expression, cfa }
      return some base
  else .ok none

/-- Whether a scope is active; below one that is not, its ranges are not read. -/
def DebugEntry.scopeActive (entry : DebugEntry) (scopes : List ScopeFrame) : Except LocationError Bool :=
  if parentActive scopes then entry.dieContains pc else .ok false

/-- What the scopes are at an entry, and whether it is active. -/
def enterEntry (depth : ℕ) (entry : DebugEntry) (scopes : List ScopeFrame) :
    Except LocationError (Bool × List ScopeFrame) :=
  if entry.isScope then do
    let active ← entry.scopeActive pc scopes
    let frameBase ← entry.readFrameBase pc cfa active
    return (active, { depth, active, frameBase } :: scopes)
  else return (parentActive scopes, scopes)

/-- `die_name` -/
def DebugEntry.dieName (entry : DebugEntry) : Except LocationError (Option String) :=
  match entry.name with
  | .error error => .error (.unsupported error)
  | .ok name => .ok name

/-- The plan for a variable that has been found. -/
def planVariable (types : TypeUnit) (fuel : ℕ) (members : List String) (scopes : List ScopeFrame)
    (entry : DebugEntry) : Resolving VariablePlan :=
  match entry.type with
  | none => unsupported "variable has no local type"
  | some type => do
    let (memberOffset, scalarWidth, finalType) ← resolveMembers types fuel type members
    let kind ← classifyType types fuel finalType
    let width := if kind = .cString then 64 else scalarWidth
    match entry.location with
    | none => located (.error .optimizedOut)
    | some location => located do
      let expression ← location.expressionAt pc
      let operations ← locationOperations (nearestFrameBase scopes) expression
      let operations := fetchOperations operations memberOffset kind width
      validateLocation operations
      return { operations, byteWidth := width, kind }

/-- The loop over the entries of a unit.  What is planned comes with the visit it is
planned for, which `resolve_variable` does not return. -/
def searchEntries (types : TypeUnit) (fuel : ℕ) (name : String) (members : List String) :
    List ScopeFrame → List (Except String Visit) → Resolving (Option (Visit × VariablePlan))
  | _, [] => return none
  | _, .error error :: _ => unsupported error
  | scopes, .ok visit :: visits => do
    let (active, scopes) ← located (enterEntry pc cfa visit.depth visit.entry (popScopes visit.depth scopes))
    if active && visit.entry.isVariable then do
      let declared ← located visit.entry.dieName
      if declared = some name then do
        let plan ← planVariable pc types fuel members scopes visit.entry
        return some (visit, plan)
      else searchEntries types fuel name members scopes visits
    else searchEntries types fuel name members scopes visits

/-- The loop over the units. -/
def searchUnits (fuel : ℕ) (watchPath name : String) (members : List String) :
    ℕ → List (Except String DebugUnit) → Resolving (Visit × VariablePlan)
  | _, [] => unsupported ("variable-not-found: " ++ watchPath)
  | _, .error error :: _ => unsupported error
  | index, .ok unit :: units => do
    let found ← searchEntries pc cfa unit.types fuel name members [] (unit.root.visits 0 [index] [])
    match found with
    | some planned => return planned
    | none => searchUnits fuel watchPath name members (index + 1) units

end

/-- The components of a watch path. -/
def pathComponents (watchPath : String) : List String :=
  (watchPath.toList.splitOn '.').map String.ofList

def DebugFile.resolveVisit (file : DebugFile) (fuel pc : ℕ) (watchPath : String) :
    Resolving (Visit × VariablePlan) :=
  match pathComponents watchPath with
  | [] => unsupported "empty watch path"
  | name :: members => searchUnits pc (file.cfa pc) fuel watchPath name members 0 file.units

/-- `resolve_variable` -/
def DebugFile.resolveVariable (file : DebugFile) (fuel pc : ℕ) (watchPath : String) :
    Resolving VariablePlan :=
  Prod.snd <$> file.resolveVisit fuel pc watchPath

/-! ### Lexical scope -/

/-- The visits the reader gets to. -/
def readable (visits : List (Except String Visit)) : List Visit := visits.filterMap Except.toOption

def unitVisits : ℕ → List (Except String DebugUnit) → List Visit
  | _, [] => []
  | index, .error _ :: units => unitVisits (index + 1) units
  | index, .ok unit :: units => readable (unit.root.visits 0 [index] []) ++ unitVisits (index + 1) units

/-- The entries of the file in the order of the walk. -/
def DebugFile.visits (file : DebugFile) : List Visit := unitVisits 0 file.units

section

variable (pc : ℕ) (name : String)

/-- One of the ranges of the entry holds the address. -/
def DebugEntry.Contains (entry : DebugEntry) : Prop :=
  ∃ ranges, entry.ranges = .ok ranges ∧ ∃ range, .ok range ∈ ranges ∧ range.covers pc = true

def DebugEntry.declares (entry : DebugEntry) : Bool :=
  match entry.dieName with
  | .ok declared => entry.isVariable && declared = some name
  | .error _ => false

/-- The nearest scope holds the address; there is none for what is declared at file level. -/
def Visit.Reaches (visit : Visit) : Prop := ∀ scope ∈ visit.scopes.head?, scope.entry.Contains pc

/-- One is declared in a scope within that of the other. -/
def Visit.Inside (inner outer : Visit) : Prop := ∃ within ≠ [], inner.scopes = within ++ outer.scopes

/-- No scope within that of the visit holds the address and declares the name. -/
def DebugFile.Unshadowed (file : DebugFile) (visit : Visit) : Prop :=
  ∀ other ∈ file.visits, other.entry.declares name → other.Reaches pc → ¬ other.Inside visit

/-- The visit is that of a declaration in the innermost scope that holds the address
and declares the name. -/
structure DebugFile.Innermost (file : DebugFile) (visit : Visit) : Prop where
  mem : visit ∈ file.visits
  declares : visit.entry.declares name
  reaches : visit.Reaches pc
  unshadowed : file.Unshadowed pc name visit

/-- `die_contains` as the walk takes it. -/
def DebugEntry.admits (entry : DebugEntry) : Bool :=
  match entry.dieContains pc with
  | .ok contains => contains
  | .error _ => false

/-- Every scope of the list passes for one that holds the address. -/
def admitted (scopes : List PlacedEntry) : Bool := scopes.all fun scope => scope.entry.admits pc

/-- A declaration the walk would stop at. -/
def Visit.visible (visit : Visit) : Bool := visit.entry.declares name && admitted pc visit.scopes

/-- The first declaration the walk would stop at has a nearest scope with ranges, if it has
one, and is not shadowed. -/
def DebugFile.FirstUnshadowed (file : DebugFile) : Prop :=
  ∃ visit, file.visits.find? (Visit.visible pc name) = some visit ∧
    (∀ scope ∈ visit.scopes.head?, scope.entry.ranges ≠ .ok []) ∧ file.Unshadowed pc name visit

end

/-! ### The stack -/

variable {pc : ℕ} {cfa : Except LocationError CfaRule}

theorem located_eq_ok {α : Type} {x : Except LocationError α} {a : α} : located x = .ok a ↔ x = .ok a := by
  rcases x with error | b
  · exact iff_of_false nofun nofun
  · exact ⟨fun h => congrArg _ (Except.ok.inj h), fun h => congrArg _ (Except.ok.inj h)⟩

variable (pc) in
/-- The stack holds the scopes above an entry. -/
inductive Tracks : List ScopeFrame → List PlacedEntry → Prop
  | nil : Tracks [] []
  | cons {frame : ScopeFrame} {frames : List ScopeFrame} {placed : PlacedEntry} {scopes : List PlacedEntry}
      (hframes : Tracks frames scopes) (hdepth : frame.depth = placed.depth)
      (hbelow : ∀ scope ∈ scopes, scope.depth < placed.depth)
      (hactive : frame.active = admitted pc (placed :: scopes)) : Tracks (frame :: frames) (placed :: scopes)

theorem Tracks.parentActive {frames : List ScopeFrame} {scopes : List PlacedEntry} (h : Tracks pc frames scopes) :
    parentActive frames = admitted pc scopes := by
  cases h with
  | nil => rfl
  | cons hframes hdepth hbelow hactive => exact hactive

theorem popScopes_cons_of_le {depth : ℕ} {frame : ScopeFrame} (h : depth ≤ frame.depth)
    (frames : List ScopeFrame) : popScopes depth (frame :: frames) = popScopes depth frames :=
  List.dropWhile_cons_of_pos (p := fun scope : ScopeFrame => decide (depth ≤ scope.depth)) (decide_eq_true h)

theorem popScopes_cons_of_lt {depth : ℕ} {frame : ScopeFrame} (h : frame.depth < depth)
    (frames : List ScopeFrame) : popScopes depth (frame :: frames) = frame :: frames :=
  List.dropWhile_cons_of_neg (p := fun scope : ScopeFrame => decide (depth ≤ scope.depth))
    fun hle => absurd (of_decide_eq_true hle) (Nat.not_le.mpr h)

/-- Deeper than all its scopes, an entry pops none. -/
theorem Tracks.popScopes_eq {frames : List ScopeFrame} {scopes : List PlacedEntry} {depth : ℕ}
    (h : Tracks pc frames scopes) (hdeep : ∀ scope ∈ scopes, scope.depth < depth) :
    popScopes depth frames = frames := by
  cases h with
  | nil => rfl
  | cons hframes hdepth =>
    apply popScopes_cons_of_lt
    rw [hdepth]
    exact hdeep _ List.mem_cons_self

theorem popScopes_le {a b : ℕ} (h : a ≤ b) (frames : List ScopeFrame) :
    popScopes a (popScopes b frames) = popScopes a frames := by
  induction frames with
  | nil => rfl
  | cons frame frames ih =>
    rcases Nat.lt_or_ge frame.depth b with hlt | hge
    · rw [popScopes_cons_of_lt hlt]
    · rw [popScopes_cons_of_le hge, popScopes_cons_of_le (h.trans hge), ih]

/-- Back at the depth of an entry, the scopes above it are left. -/
theorem Tracks.popScopes_below (placed : PlacedEntry) {frames : List ScopeFrame} {scopes : List PlacedEntry}
    (hdeep : ∀ scope ∈ scopes, scope.depth < placed.depth)
    (h : Tracks pc (popScopes (placed.depth + 1) frames) (placed.scopesBelow scopes)) :
    Tracks pc (popScopes placed.depth frames) scopes := by
  rw [← popScopes_le (Nat.le_succ placed.depth) frames]
  generalize popScopes (placed.depth + 1) frames = popped at h
  unfold PlacedEntry.scopesBelow at h
  split at h
  · cases h with
    | cons hframes hdepth =>
      rw [popScopes_cons_of_le hdepth.ge, hframes.popScopes_eq hdeep]
      exact hframes
  · rw [h.popScopes_eq hdeep]
    exact h

theorem DebugEntry.isScope_eq_false {entry : DebugEntry} (h : entry.isVariable = true) : entry.isScope = false := by
  rcases entry with ⟨tag, ranges, name, type, location, frameBase⟩
  cases tag with
  | var | formalParameter => rfl
  | subprogram | inlinedSubroutine | lexicalBlock | other => cases h

/-- On entering an entry the stack comes to hold the scopes above its children. -/
theorem Tracks.enterEntry {placed : PlacedEntry} {frames entered : List ScopeFrame} {scopes : List PlacedEntry}
    {active : Bool} (h : Tracks pc frames scopes) (hdeep : ∀ scope ∈ scopes, scope.depth < placed.depth)
    (hentered : enterEntry pc cfa placed.depth placed.entry frames = .ok (active, entered)) :
    Tracks pc entered (placed.scopesBelow scopes) ∧
      (placed.entry.isVariable = true → active = admitted pc scopes) := by
  unfold NativeAgent.enterEntry at hentered
  unfold PlacedEntry.scopesBelow
  split at hentered
  · next hscope =>
    obtain ⟨holds, hholds, hentered⟩ := bind_eq_ok.mp hentered
    obtain ⟨base, hbase, hentered⟩ := bind_eq_ok.mp hentered
    cases hentered
    rw [if_pos hscope]
    refine ⟨.cons h rfl hdeep ?_, fun hvariable => ?_⟩
    · show active = (placed.entry.admits pc && admitted pc scopes)
      rw [DebugEntry.scopeActive, h.parentActive] at hholds
      split at hholds
      · next hparent =>
        rw [hparent, Bool.and_true, DebugEntry.admits, hholds]
      · next hparent =>
        cases hholds
        rw [Bool.eq_false_of_not_eq_true hparent, Bool.and_false]
    · exact absurd (hscope.symm.trans (DebugEntry.isScope_eq_false hvariable)) Bool.true_eq_false.mp
  · next hscope =>
    cases hentered
    rw [if_neg hscope]
    exact ⟨h, fun _ => h.parentActive⟩

/-! ### The first declaration -/

section

variable {types : TypeUnit} {fuel : ℕ} {name : String} {members : List String}

/-- Without a result, the walk goes on with the scopes above the children. -/
theorem searchEntries_cons {frames : List ScopeFrame} {visit : Visit}
    {rest : List (Except String Visit)} {found : Option (Visit × VariablePlan)}
    (htracks : Tracks pc (popScopes visit.depth frames) visit.scopes)
    (hdeep : ∀ scope ∈ visit.scopes, scope.depth < visit.depth)
    (h : searchEntries pc cfa types fuel name members frames (.ok visit :: rest) = .ok found) :
    (visit.visible pc name = true ∧ ∃ plan, found = some (visit, plan)) ∨
      visit.visible pc name = false ∧ ∃ entered,
        Tracks pc entered (visit.toPlacedEntry.scopesBelow visit.scopes) ∧
          searchEntries pc cfa types fuel name members entered rest = .ok found := by
  obtain ⟨⟨active, entered⟩, hentered, h⟩ := bind_eq_ok.mp h
  obtain ⟨hbelow, hactive⟩ := htracks.enterEntry hdeep (located_eq_ok.mp hentered)
  have hvisible : visit.visible pc name = (visit.entry.declares name && admitted pc visit.scopes) := rfl
  dsimp only at h
  split at h
  · next hmet =>
    obtain ⟨ha, hvariable⟩ := Bool.and_eq_true_iff.mp hmet
    obtain ⟨declared, hdeclared, h⟩ := bind_eq_ok.mp h
    rw [DebugEntry.declares, located_eq_ok.mp hdeclared, hvariable, ← hactive hvariable, ha, Bool.and_true] at hvisible
    split at h
    · next hname =>
      obtain ⟨plan, hplan, h⟩ := bind_eq_ok.mp h
      cases h
      exact .inl ⟨hvisible.trans (decide_eq_true hname), plan, rfl⟩
    · next hname => exact .inr ⟨hvisible.trans (decide_eq_false hname), entered, hbelow, h⟩
  · next hmet =>
    refine .inr ⟨?_, entered, hbelow, h⟩
    rw [hvisible]
    cases hvariable : visit.entry.isVariable with
    | false =>
      rw [DebugEntry.declares, hvariable]
      rcases visit.entry.dieName with error | declared
      · rfl
      · rfl
    | true =>
      rw [hvariable, Bool.and_true] at hmet
      rw [← hactive hvariable, Bool.eq_false_of_not_eq_true hmet, Bool.and_false]

/-- What the walk comes to over some of the visits, the rest left to do. -/
def Walked (pc : ℕ) (cfa : Except LocationError CfaRule) (types : TypeUnit) (fuel : ℕ) (name : String)
    (members : List String) (depth : ℕ) (scopes : List PlacedEntry) (visits rest : List (Except String Visit))
    (found : Option (Visit × VariablePlan)) : Prop :=
  (∃ visit plan, found = some (visit, plan) ∧ (readable visits).find? (Visit.visible pc name) = some visit) ∨
    (readable visits).find? (Visit.visible pc name) = none ∧ ∃ frames,
      Tracks pc (popScopes depth frames) scopes ∧
        searchEntries pc cfa types fuel name members frames rest = .ok found

theorem scopesBelow_depth (placed : PlacedEntry) {scopes : List PlacedEntry}
    (hdeep : ∀ scope ∈ scopes, scope.depth < placed.depth) :
    ∀ scope ∈ placed.scopesBelow scopes, scope.depth < placed.depth + 1 := by
  intro scope hscope
  unfold PlacedEntry.scopesBelow at hscope
  split at hscope
  · rcases List.mem_cons.mp hscope with rfl | hscope
    · exact Nat.lt_succ_self _
    · exact Nat.lt_succ_of_lt (hdeep scope hscope)
  · exact Nat.lt_succ_of_lt (hdeep scope hscope)

theorem readable_append (visits rest : List (Except String Visit)) :
    readable (visits ++ rest) = readable visits ++ readable rest := List.filterMap_append

mutual

theorem searchEntries_die (die : Die) {depth : ℕ} {place : List ℕ} {scopes : List PlacedEntry}
    {frames : List ScopeFrame} {rest : List (Except String Visit)} {found : Option (Visit × VariablePlan)}
    (htracks : Tracks pc (popScopes depth frames) scopes) (hdeep : ∀ scope ∈ scopes, scope.depth < depth)
    (h : searchEntries pc cfa types fuel name members frames (die.visits depth place scopes ++ rest) = .ok found) :
    Walked pc cfa types fuel name members depth scopes (die.visits depth place scopes) rest found := by
  cases die with
  | unread error => cases h
  | node entry children =>
    rcases searchEntries_cons htracks hdeep h with ⟨hvisible, plan, hfound⟩ | ⟨hvisible, entered, hbelow, h⟩
    · exact .inl ⟨_, plan, hfound, List.find?_cons_of_pos hvisible⟩
    · have hdeeper := scopesBelow_depth ⟨depth, place, entry⟩ hdeep
      have htop : Tracks pc (popScopes (depth + 1) entered) (PlacedEntry.scopesBelow ⟨depth, place, entry⟩ scopes) := by
        rw [hbelow.popScopes_eq hdeeper]
        exact hbelow
      have hchildren := searchEntries_dies children htop hdeeper h
      have hskip : (readable ((Die.node entry children).visits depth place scopes)).find? (Visit.visible pc name) =
          (readable (Die.visitsAll (depth + 1) place 0
            (PlacedEntry.scopesBelow ⟨depth, place, entry⟩ scopes) children)).find? (Visit.visible pc name) := by
        apply List.find?_cons_of_neg
        rw [hvisible]
        exact Bool.false_ne_true
      rcases hchildren with ⟨visit, plan, hfound, hfirst⟩ | ⟨hnone, left, hleft, hrest⟩
      · exact .inl ⟨visit, plan, hfound, hskip.trans hfirst⟩
      -- back from the children, the scopes of the entry are left
      · exact .inr ⟨hskip.trans hnone, left, Tracks.popScopes_below ⟨depth, place, entry⟩ hdeep hleft, hrest⟩

theorem searchEntries_dies (dies : List Die) {depth child : ℕ} {place : List ℕ} {scopes : List PlacedEntry}
    {frames : List ScopeFrame} {rest : List (Except String Visit)} {found : Option (Visit × VariablePlan)}
    (htracks : Tracks pc (popScopes depth frames) scopes) (hdeep : ∀ scope ∈ scopes, scope.depth < depth)
    (h : searchEntries pc cfa types fuel name members frames
      (Die.visitsAll depth place child scopes dies ++ rest) = .ok found) :
    Walked pc cfa types fuel name members depth scopes (Die.visitsAll depth place child scopes dies) rest found := by
  cases dies with
  | nil => exact .inr ⟨rfl, frames, htracks, h⟩
  | cons die dies =>
    rw [Die.visitsAll, List.append_assoc] at h
    rw [Walked, Die.visitsAll, readable_append, List.find?_append]
    rcases searchEntries_die die htracks hdeep h with ⟨visit, plan, hfound, hfirst⟩ | ⟨hnone, left, hleft, hrest⟩
    · exact .inl ⟨visit, plan, hfound, by rw [hfirst]; rfl⟩
    · rw [hnone, Option.none_or]
      exact searchEntries_dies dies hleft hdeep hrest

end

/-- The walk over a unit ends at its first visible declaration, or finds that there is none. -/
theorem searchEntries_unit {index : ℕ} {unit : DebugUnit} {found : Option (Visit × VariablePlan)}
    (h : searchEntries pc cfa types fuel name members [] (unit.root.visits 0 [index] []) = .ok found) :
    (readable (unit.root.visits 0 [index] [])).find? (Visit.visible pc name) = found.map Prod.fst := by
  rw [← List.append_nil (unit.root.visits 0 [index] [])] at h
  rcases searchEntries_die unit.root .nil (List.forall_mem_nil _) h with
    ⟨visit, plan, rfl, hfirst⟩ | ⟨hnone, frames, -, hrest⟩
  · exact hfirst
  · cases hrest
    exact hnone

theorem searchUnits_first {watchPath : String} {index : ℕ} {units : List (Except String DebugUnit)}
    {visit : Visit} {plan : VariablePlan}
    (h : searchUnits pc cfa fuel watchPath name members index units = .ok (visit, plan)) :
    (unitVisits index units).find? (Visit.visible pc name) = some visit := by
  induction units generalizing index with
  | nil => cases h
  | cons unit units ih =>
    rcases unit with error | unit
    · cases h
    · obtain ⟨found, hfound, h⟩ := bind_eq_ok.mp h
      rw [unitVisits, List.find?_append, searchEntries_unit hfound]
      rcases found with - | planned
      · rw [Option.map_none, Option.none_or]
        exact ih h
      · cases h
        rfl

end

/-! ### What is planned -/

theorem rangesContain_eq_true {saw : Bool} {ranges : List (Except String PcRange)}
    (h : rangesContain pc saw ranges = .ok true) :
    (ranges = [] ∧ saw = false) ∨ ∃ range, .ok range ∈ ranges ∧ range.covers pc = true := by
  induction ranges generalizing saw with
  | nil => exact .inl ⟨rfl, by cases saw with | false => rfl | true => cases h⟩
  | cons range ranges ih =>
    rcases range with error | range
    · cases h
    · rw [rangesContain] at h
      split at h
      · next hcovers => exact .inr ⟨range, List.mem_cons_self, hcovers⟩
      · rcases ih h with ⟨-, hsaw⟩ | ⟨covering, hmem, hcovers⟩
        · cases hsaw
        · exact .inr ⟨covering, List.mem_cons_of_mem _ hmem, hcovers⟩

/-- What the walk takes to hold the address holds it, or has no ranges. -/
theorem contains_iff_of_admits {entry : DebugEntry} (h : entry.admits pc = true) :
    entry.Contains pc ↔ entry.ranges ≠ .ok [] := by
  constructor
  · rintro ⟨ranges, hranges, range, hmem, -⟩ hempty
    cases hranges.symm.trans hempty
    cases hmem
  · intro hnonempty
    unfold DebugEntry.admits DebugEntry.dieContains at h
    rcases hranges : entry.ranges with error | ranges
    · rw [hranges] at h
      cases h
    · rw [hranges] at h
      dsimp only at h
      split at h
      · next hcontains =>
        rw [h] at hcontains
        rcases rangesContain_eq_true hcontains with ⟨rfl, -⟩ | hcovering
        · exact absurd hranges hnonempty
        · exact ⟨ranges, hranges, hcovering⟩
      · cases h

/-- The nearest scope of a visible declaration holds the address, unless it has no ranges. -/
theorem reaches_iff_of_visible {name : String} {visit : Visit} (h : visit.visible pc name = true) :
    visit.Reaches pc ↔ ∀ scope ∈ visit.scopes.head?, scope.entry.ranges ≠ .ok [] := by
  have hadmitted := List.all_eq_true.mp (Bool.and_eq_true_iff.mp h).2
  exact forall₂_congr fun scope hscope => contains_iff_of_admits (hadmitted scope (List.mem_of_mem_head? hscope))

/-- What is planned is the variable of the innermost scope exactly when the first
declaration the walk would stop at is. -/
theorem DebugFile.innermost_iff {file : DebugFile} {fuel : ℕ} {watchPath name : String} {members : List String}
    {visit : Visit} {plan : VariablePlan} (hpath : pathComponents watchPath = name :: members)
    (h : file.resolveVisit fuel pc watchPath = .ok (visit, plan)) :
    file.Innermost pc name visit ↔ file.FirstUnshadowed pc name := by
  unfold DebugFile.resolveVisit at h
  rw [hpath] at h
  have hfirst : file.visits.find? (Visit.visible pc name) = some visit := searchUnits_first h
  have hvisible := List.find?_some hfirst
  have hreaches := reaches_iff_of_visible hvisible
  constructor
  · intro hinnermost
    exact ⟨visit, hfirst, hreaches.mp hinnermost.reaches, hinnermost.unshadowed⟩
  · rintro ⟨first, hfirst', hranges, hunshadowed⟩
    cases hfirst.symm.trans hfirst'
    exact ⟨List.mem_of_find?_eq_some hfirst, (Bool.and_eq_true_iff.mp hvisible).1, hreaches.mpr hranges, hunshadowed⟩

/-! ### A block that declares the name again -/

def DebugEntry.declaration (name : String) (register : ℕ) : DebugEntry :=
  ⟨.var, .ok [], .ok (some name), some 3, some (.exprloc [.register register]), none⟩

def DebugEntry.scopeOf (tag : EntryTag) (low high : ℕ) : DebugEntry :=
  ⟨tag, .ok [.ok ⟨low, high⟩], .ok none, none, none, none⟩

/-- `unsigned total; … { unsigned total; … }` -/
def shadowing : DebugFile where
  units := [.ok ⟨sampleUnit, .node ⟨.other, .ok [], .ok none, none, none, none⟩
    [.node (.scopeOf .subprogram 100 200)
      [.node (.declaration "total" 5) [],
        .node (.scopeOf .lexicalBlock 140 180) [.node (.declaration "total" 3) []]]]⟩]
  cfa _ := .error (.unsupported "DW_OP_call_frame_cfa has no usable CFI")

/-- The subprogram, the block in it, and what each of them declares. -/
def shadowing.subprogram : PlacedEntry := ⟨1, [0, 0], .scopeOf .subprogram 100 200⟩

def shadowing.block : PlacedEntry := ⟨2, [0, 0, 1], .scopeOf .lexicalBlock 140 180⟩

def shadowing.outer : Visit := ⟨⟨2, [0, 0, 0], .declaration "total" 5⟩, [subprogram]⟩

def shadowing.inner : Visit := ⟨⟨3, [0, 0, 1, 0], .declaration "total" 3⟩, [block, subprogram]⟩

theorem Visit.Inside.length_lt {inner outer : Visit} (h : inner.Inside outer) :
    outer.scopes.length < inner.scopes.length := by
  obtain ⟨within, hne, hscopes⟩ := h
  rw [hscopes, List.length_append]
  exact Nat.lt_add_of_pos_left (List.length_pos_iff.mpr hne)

theorem shadowing.declared {visit : Visit} (hmem : visit ∈ shadowing.visits)
    (hdeclares : visit.entry.declares "total" = true) : visit = outer ∨ visit = inner := by
  have hboth : shadowing.visits.filter (fun visit => visit.entry.declares "total") = [outer, inner] := rfl
  have hkept : visit ∈ [outer, inner] := by
    rw [← hboth]
    exact List.mem_filter.mpr ⟨hmem, hdeclares⟩
  rcases List.mem_cons.mp hkept with rfl | hkept
  · exact .inl rfl
  · exact .inr (List.mem_singleton.mp hkept)

theorem contains_scopeOf {tag : EntryTag} {low high : ℕ} :
    (DebugEntry.scopeOf tag low high).Contains pc ↔ low ≤ pc ∧ pc < high := by
  constructor
  · rintro ⟨_, ⟨⟩, range, hmem, hcovers⟩
    cases List.mem_singleton.mp hmem
    exact ⟨of_decide_eq_true (Bool.and_eq_true_iff.mp hcovers).1, of_decide_eq_true (Bool.and_eq_true_iff.mp hcovers).2⟩
  · rintro ⟨hlow, hhigh⟩
    exact ⟨_, rfl, _, List.mem_singleton_self _, Bool.and_eq_true_iff.mpr ⟨decide_eq_true hlow, decide_eq_true hhigh⟩⟩

theorem shadowing.reaches_inner (h : inner.Reaches pc) : 140 ≤ pc ∧ pc < 180 := contains_scopeOf.mp (h block rfl)

/-- Outside the block the variable is that of the subprogram. -/
theorem outsideBlock_innermost :
    shadowing.resolveVisit 1 120 "total" = .ok (shadowing.outer, ⟨[.register 5, .stackValue], 4, .unsigned⟩) ∧
      shadowing.FirstUnshadowed 120 "total" ∧ shadowing.Innermost 120 "total" shadowing.outer := by
  have hplanned : shadowing.resolveVisit 1 120 "total" =
      .ok (shadowing.outer, ⟨[.register 5, .stackValue], 4, .unsigned⟩) := rfl
  have hfirst : shadowing.FirstUnshadowed 120 "total" := by
    refine ⟨shadowing.outer, rfl, ?_, ?_⟩
    · rintro scope ⟨⟩
      nofun
    · intro other hmem hdeclares hreaches hinside
      rcases shadowing.declared hmem hdeclares with rfl | rfl
      · exact absurd hinside.length_lt (Nat.lt_irrefl _)
      · exact absurd (shadowing.reaches_inner hreaches).1 (by decide)
  exact ⟨hplanned, hfirst, (DebugFile.innermost_iff rfl hplanned).mpr hfirst⟩

/-- In the block it is that of the subprogram too. -/
theorem insideBlock_outer :
    shadowing.resolveVisit 1 150 "total" = .ok (shadowing.outer, ⟨[.register 5, .stackValue], 4, .unsigned⟩) ∧
      shadowing.Innermost 150 "total" shadowing.inner ∧ ¬ shadowing.Innermost 150 "total" shadowing.outer := by
  have hmem : shadowing.inner ∈ shadowing.visits := by
    apply List.mem_of_getElem? (i := 4)
    rfl
  have hreaches : shadowing.inner.Reaches 150 := by
    rintro scope ⟨⟩
    exact contains_scopeOf.mpr (by decide)
  refine ⟨rfl, ⟨hmem, rfl, hreaches, ?_⟩, fun h => ?_⟩
  · intro other hother hdeclares _ hinside
    rcases shadowing.declared hother hdeclares with rfl | rfl
    · exact absurd hinside.length_lt (by decide)
    · exact absurd hinside.length_lt (Nat.lt_irrefl _)
  · exact h.unshadowed shadowing.inner hmem rfl hreaches ⟨[shadowing.block], List.cons_ne_nil _ _, rfl⟩

end NativeAgent
