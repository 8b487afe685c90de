/-
LiveProbe/DebugLines.lean

Lines of the debug file: `resolve_line`.

A row of a line table names its file by a name, a directory and the directory of the
compilation.  The search puts them together in up to four ways, keeps those whose
text ends in the text asked for, and takes the longest for the file of the row.
`SourceRow.filePath` is the file the three stand for: what is absolute stands by
itself, and a path ends in another on whole components.
-/
import LiveProbe.Outcome
import LiveProbe.OrderedSets
import Mathlib.Data.String.Basic

namespace NativeAgent

open Outcome

/-! ### Paths -/

/-- `Component::Normal`: neither empty nor a dot nor a pair of dots. -/
def isNormal (component : List Char) : Bool := component ∉ [[], ['.'], ['.', '.']]

/-- The normal components of a path. -/
def pathParts (path : String) : List String :=
  ((path.toList.splitOn '/').filter isNormal).map String.ofList

def normalizePath (path : String) : String := "/".intercalate (pathParts path)

/-- `candidate.split('/').count()` -/
def splitCount (path : String) : ℕ := (path.toList.splitOn '/').length

def endsWith (candidate requested : String) : Bool := requested.toList.isSuffixOf candidate.toList

/-- The key of `max_by_key` is at most that of another. -/
def rankedBelow (a b : String) : Bool :=
  splitCount a < splitCount b || splitCount a = splitCount b && a.utf8ByteSize ≤ b.utf8ByteSize

/-- `max_by_key`: the last of the greatest. -/
def deepest (candidates : List String) : Option String :=
  candidates.foldl (fun best candidate =>
    match best with
    | none => some candidate
    | some best => if rankedBelow best candidate then some candidate else some best) none

/-! ### The line table -/

structure FileEntry where
  pathName : Except String String
  /-- the directory, when there is one that reads -/
  directory : Option String

structure LineRow where
  address : ℕ
  line : Option ℕ
  endSequence : Bool
  file : Option FileEntry

structure LineUnit where
  compDir : Option String
  /-- the rows of its sequences, when it has a line program -/
  program : Option (Except String (List (Except String LineRow)))

/-- The file, as it is read: the sections come before the units. -/
structure LineObject where
  hasDebugInfo : Bool
  units : Except String (List (Except String LineUnit))

structure LineSite where
  address : ℕ
  file : String
  line : ℕ
  inlineChain : List String
  deriving DecidableEq, Repr

inductive ResolutionError
  | noDebugInfo
  | noLineInfo
  | sourceFileNotFound (suffix : String)
  | sourceFileAmbiguous (suffix : String) (candidates : List String)
  | noExecutableAddress (suffix : String)
  | other (error : String)
  deriving DecidableEq, Repr

/-! ### The search -/

/-- A row of the line that is asked for, with what its file is named by. -/
structure SourceRow where
  address : ℕ
  name : String
  directory : Option String
  compDir : Option String

/-- The candidates of a row. -/
def SourceRow.candidates (row : SourceRow) : List String :=
  [normalizePath row.name] ++
    (match row.directory with
      | none => []
      | some directory => [normalizePath (directory ++ "/" ++ row.name)]) ++
    match row.compDir with
    | none => []
    | some compDir =>
      normalizePath (compDir ++ "/" ++ row.name) ::
        match row.directory with
        | none => []
        | some directory => [normalizePath (compDir ++ "/" ++ directory ++ "/" ++ row.name)]

section

variable (sourceSuffix : String)

/-- The candidate that is taken for the file of a row. -/
def SourceRow.spelling (row : SourceRow) : Option String :=
  deepest (row.candidates.filter fun candidate => endsWith candidate (normalizePath sourceSuffix))

variable (requestedLine : ℕ)

/-- The checks on a row before its file is compared. -/
def LineRow.read (compDir : Option String) (row : LineRow) : Except ResolutionError (Option SourceRow) :=
  if row.endSequence || row.line ≠ some requestedLine then .ok none
  else match row.file with
    | none => .ok none
    | some file =>
      match file.pathName with
      | .error error => .error (.other error)
      | .ok name => .ok (some ⟨row.address, name, file.directory, compDir⟩)

structure LineSearch where
  sites : List LineSite
  sawLines : Bool
  sawFile : Bool
  matchedFiles : List String

def LineSearch.visit (search : LineSearch) (row : SourceRow) : LineSearch :=
  match row.spelling sourceSuffix with
  | none => search
  | some normalized =>
    { search with
      sawFile := true
      matchedFiles := OrderedSet.insert normalized search.matchedFiles
      sites := search.sites ++ [⟨row.address, normalized, requestedLine, []⟩] }

/-- The loop over the rows of a unit. -/
def visitRows (compDir : Option String) : LineSearch → List (Except String LineRow) →
    Except ResolutionError LineSearch
  | search, [] => .ok search
  | _, .error error :: _ => .error (.other error)
  | search, .ok row :: rows => do
    match ← row.read requestedLine compDir with
    | none => visitRows compDir search rows
    | some source => visitRows compDir (search.visit sourceSuffix requestedLine source) rows

/-- The loop over the units. -/
def visitUnits : LineSearch → List (Except String LineUnit) → Except ResolutionError LineSearch
  | search, [] => .ok search
  | _, .error error :: _ => .error (.other error)
  | search, .ok unit :: units =>
    match unit.program with
    | none => visitUnits search units
    | some (.error error) => .error (.other error)
    | some (.ok rows) => do
      let search ← visitRows sourceSuffix requestedLine unit.compDir { search with sawLines := true } rows
      visitUnits search units

/-- `sites.retain(|site| seen.insert(site.address))` -/
def retainFirst (seen : List ℕ) : List LineSite → List LineSite
  | [] => []
  | site :: sites =>
    if site.address ∈ seen then retainFirst seen sites else site :: retainFirst (site.address :: seen) sites

/-- What is returned after the loops. -/
def LineSearch.finish (search : LineSearch) : Except ResolutionError (List LineSite) :=
  if !search.sawLines then .error .noLineInfo
  else if !search.sawFile then .error (.sourceFileNotFound sourceSuffix)
  else if search.matchedFiles.length > 1 then
    .error (.sourceFileAmbiguous sourceSuffix search.matchedFiles)
  else match retainFirst [] search.sites with
    | [] => .error (.noExecutableAddress sourceSuffix)
    | sites => .ok sites

/-- `resolve_line`; the file may fail to read or to parse. -/
def resolveLine (object : Except String LineObject) : Except ResolutionError (List LineSite) :=
  match object with
  | .error error => .error (.other error)
  | .ok object =>
    if !object.hasDebugInfo then .error .noDebugInfo
    else match object.units with
      | .error error => .error (.other error)
      | .ok units => do
        let search ← visitUnits sourceSuffix requestedLine ⟨[], false, false, []⟩ units
        search.finish sourceSuffix

end

/-! ### Files -/

def isAbsolute (path : String) : Bool := ['/'].isPrefixOf path.toList

/-- The path a row's file is at: what is absolute stands by itself. -/
def SourceRow.fullPath (row : SourceRow) : String :=
  if isAbsolute row.name then row.name
  else
    let within := match row.directory with
      | none => row.name
      | some directory => directory ++ "/" ++ row.name
    if isAbsolute within then within
    else match row.compDir with
      | none => within
      | some compDir => compDir ++ "/" ++ within

/-- The file of a row, by its normalised path. -/
def SourceRow.filePath (row : SourceRow) : List String := pathParts row.fullPath

section

variable (sourceSuffix : String) (requestedLine : ℕ)

/-- The path of the file ends in the path asked for, on whole components. -/
def SourceRow.Belongs (row : SourceRow) : Prop := pathParts sourceSuffix <:+ row.filePath

def sourceRows (compDir : Option String) : List (Except String LineRow) → Except ResolutionError (List SourceRow)
  | [] => .ok []
  | .error error :: _ => .error (.other error)
  | .ok row :: rows => do
    let source ← row.read requestedLine compDir
    let sources ← sourceRows compDir rows
    return source.toList ++ sources

def unitSourceRows : List (Except String LineUnit) → Except ResolutionError (List SourceRow)
  | [] => .ok []
  | .error error :: _ => .error (.other error)
  | .ok unit :: units =>
    match unit.program with
    | none => unitSourceRows units
    | some (.error error) => .error (.other error)
    | some (.ok rows) => do
      let sources ← sourceRows requestedLine unit.compDir rows
      let rest ← unitSourceRows units
      return sources ++ rest

/-- The rows of the line, when the file reads. -/
def debugRows : Except String LineObject → Except ResolutionError (List SourceRow)
  | .error error => .error (.other error)
  | .ok object =>
    if !object.hasDebugInfo then .error .noDebugInfo
    else match object.units with
      | .error error => .error (.other error)
      | .ok units => unitSourceRows requestedLine units

/-- What is returned is what the rows of the line say: the sites lie in files whose path ends
in the one asked for, and the file is ambiguous when there are two of them. -/
structure Resolves (rows : List SourceRow) (result : Except ResolutionError (List LineSite)) : Prop where
  sites : ∀ sites, result = .ok sites → ∀ site ∈ sites, ∃ row ∈ rows,
    row.address = site.address ∧ row.spelling sourceSuffix = some site.file ∧ row.Belongs sourceSuffix
  ambiguous : (∃ candidates, result = .error (.sourceFileAmbiguous sourceSuffix candidates)) ↔
    ∃ a ∈ rows, ∃ b ∈ rows, a.Belongs sourceSuffix ∧ b.Belongs sourceSuffix ∧ a.filePath ≠ b.filePath

/-- The rows that match are spelled alike. -/
def SpelledAlike (rows : List SourceRow) : Prop :=
  ∀ a ∈ rows, ∀ b ∈ rows, ∀ f g, a.spelling sourceSuffix = some f → b.spelling sourceSuffix = some g → f = g

/-- The rows whose file ends in the path asked for are of one file. -/
def OneFile (rows : List SourceRow) : Prop :=
  ∀ a ∈ rows, ∀ b ∈ rows, a.Belongs sourceSuffix → b.Belongs sourceSuffix → a.filePath = b.filePath

/-- The address of a row that matches is that of one whose file ends in the path asked for. -/
def EachBelongs (rows : List SourceRow) : Prop :=
  ∀ a ∈ rows, (a.spelling sourceSuffix).isSome →
    ∃ b ∈ rows, b.address = a.address ∧ (b.spelling sourceSuffix).isSome ∧ b.Belongs sourceSuffix

end

/-! ### The run -/

variable {sourceSuffix : String} {requestedLine : ℕ}

theorem visitRows_eq {compDir : Option String} {search : LineSearch} {rows : List (Except String LineRow)}
    {sources : List SourceRow} (h : sourceRows requestedLine compDir rows = .ok sources) :
    visitRows sourceSuffix requestedLine compDir search rows =
      .ok (sources.foldl (LineSearch.visit sourceSuffix requestedLine) search) := by
  induction rows generalizing search sources with
  | nil =>
    cases h
    rfl
  | cons row rows ih =>
    rcases row with error | row
    · cases h
    · obtain ⟨source, hsource, h⟩ := bind_eq_ok.mp h
      obtain ⟨rest, hrest, h⟩ := bind_eq_ok.mp h
      cases h
      rw [visitRows, hsource]
      rcases source with - | source
      · rw [Option.toList_none, List.nil_append, ← ih hrest]
        rfl
      · rw [Option.toList_some, List.singleton_append, List.foldl_cons, ← ih hrest]
        rfl

/-- The sites and the files that have been matched are those of the rows. -/
structure LineSearch.Of (sourceSuffix : String) (requestedLine : ℕ) (rows : List SourceRow) (search : LineSearch) :
    Prop where
  sawFile : search.sawFile = true ↔ search.sites ≠ []
  nodup : search.matchedFiles.Nodup
  files : ∀ f, f ∈ search.matchedFiles ↔ ∃ row ∈ rows, row.spelling sourceSuffix = some f
  sites : ∀ site, site ∈ search.sites ↔ ∃ row ∈ rows, ∃ f, row.spelling sourceSuffix = some f ∧
    site = ⟨row.address, f, requestedLine, []⟩

theorem LineSearch.Of.visit {rows : List SourceRow} {search : LineSearch}
    (h : search.Of sourceSuffix requestedLine rows) (row : SourceRow) :
    (search.visit sourceSuffix requestedLine row).Of sourceSuffix requestedLine (rows ++ [row]) := by
  have hmatch : ∀ P : SourceRow → Prop, (∃ r ∈ rows ++ [row], P r) ↔ (∃ r ∈ rows, P r) ∨ P row := fun P => by
    simp only [List.mem_append, List.mem_singleton, or_and_right, exists_or, exists_eq_left]
  unfold LineSearch.visit
  rcases hspelling : row.spelling sourceSuffix with - | normalized
  · refine ⟨h.sawFile, h.nodup, fun f => ?_, fun site => ?_⟩
    · rw [hmatch, hspelling, h.files]
      exact ⟨.inl, fun hor => hor.resolve_right nofun⟩
    · rw [hmatch, hspelling, h.sites]
      exact ⟨.inl, fun hor => hor.resolve_right fun ⟨_, he, _⟩ => nomatch he⟩
  · refine ⟨?_, OrderedSet.nodup_insert h.nodup, fun f => ?_, fun site => ?_⟩
    · exact iff_of_true rfl (List.append_ne_nil_of_right_ne_nil _ (List.cons_ne_nil _ _))
    · rw [hmatch, hspelling, OrderedSet.mem_insert, h.files, or_comm, Option.some.injEq, eq_comm]
    · show site ∈ search.sites ++ [_] ↔ _
      rw [hmatch, hspelling, List.mem_append, h.sites, List.mem_singleton]
      simp only [Option.some.injEq, exists_eq_left']

theorem LineSearch.Of.foldl {rows more : List SourceRow} {search : LineSearch}
    (h : search.Of sourceSuffix requestedLine rows) :
    (more.foldl (LineSearch.visit sourceSuffix requestedLine) search).Of sourceSuffix requestedLine (rows ++ more) := by
  induction more generalizing rows search with
  | nil =>
    rw [List.append_nil]
    exact h
  | cons row more ih =>
    rw [List.append_cons, List.foldl_cons]
    exact ih (h.visit row)

theorem foldl_sawLines {rows : List SourceRow} {search : LineSearch} :
    (rows.foldl (LineSearch.visit sourceSuffix requestedLine) search).sawLines = search.sawLines := by
  induction rows generalizing search with
  | nil => rfl
  | cons row rows ih =>
    have hvisit : (search.visit sourceSuffix requestedLine row).sawLines = search.sawLines := by
      unfold LineSearch.visit
      split
      · rfl
      · rfl
    rw [List.foldl_cons, ih, hvisit]

theorem visitUnits_of {search : LineSearch} {units : List (Except String LineUnit)} {rows sources : List SourceRow}
    (h : unitSourceRows requestedLine units = .ok sources) (hof : search.Of sourceSuffix requestedLine rows)
    (hlines : rows ≠ [] → search.sawLines = true) :
    ∃ done, visitUnits sourceSuffix requestedLine search units = .ok done ∧
      done.Of sourceSuffix requestedLine (rows ++ sources) ∧ (rows ++ sources ≠ [] → done.sawLines = true) := by
  induction units generalizing search rows sources with
  | nil =>
    cases h
    rw [List.append_nil]
    exact ⟨search, rfl, hof, hlines⟩
  | cons unit units ih =>
    rcases unit with error | ⟨compDir, program⟩
    · cases h
    · rcases program with - | (error | lineRows)
      · exact ih h hof hlines
      · cases h
      · obtain ⟨first, hfirst, h⟩ := bind_eq_ok.mp h
        obtain ⟨rest, hrest, h⟩ := bind_eq_ok.mp h
        cases h
        rw [visitUnits, ← List.append_assoc]
        dsimp only
        rw [visitRows_eq hfirst]
        have hstart : LineSearch.Of sourceSuffix requestedLine rows { search with sawLines := true } :=
          ⟨hof.sawFile, hof.nodup, hof.files, hof.sites⟩
        exact ih hrest hstart.foldl fun _ => foldl_sawLines

/-! ### What is returned -/

theorem mem_of_mem_retainFirst {seen : List ℕ} {sites : List LineSite} {site : LineSite}
    (h : site ∈ retainFirst seen sites) : site ∈ sites := by
  induction sites generalizing seen with
  | nil => exact h
  | cons first sites ih =>
    rw [retainFirst] at h
    split at h
    · exact List.mem_cons_of_mem _ (ih h)
    · rcases List.mem_cons.mp h with rfl | h
      · exact List.mem_cons_self
      · exact List.mem_cons_of_mem _ (ih h)

/-- Each address is kept once. -/
theorem retainFirst_keeps {seen : List ℕ} {sites : List LineSite} {site : LineSite} (h : site ∈ sites)
    (hseen : site.address ∉ seen) : ∃ kept ∈ retainFirst seen sites, kept.address = site.address := by
  induction sites generalizing seen with
  | nil => cases h
  | cons first sites ih =>
    rw [retainFirst]
    rcases List.mem_cons.mp h with rfl | h
    · rw [if_neg hseen]
      exact ⟨site, List.mem_cons_self, rfl⟩
    · split
      · exact ih h hseen
      · rcases eq_or_ne site.address first.address with heq | hne
        · exact ⟨first, List.mem_cons_self, heq.symm⟩
        · obtain ⟨kept, hkept, haddress⟩ := ih h fun hmem => (List.mem_cons.mp hmem).elim hne hseen
          exact ⟨kept, List.mem_cons_of_mem _ hkept, haddress⟩

section

variable {rows : List SourceRow} {done : LineSearch}

theorem LineSearch.Of.spelledAlike_iff (h : done.Of sourceSuffix requestedLine rows) :
    ¬ SpelledAlike sourceSuffix rows ↔ 1 < done.matchedFiles.length := by
  rw [OrderedSet.one_lt_length_iff h.nodup]
  constructor
  · intro hnot
    unfold SpelledAlike at hnot
    push Not at hnot
    obtain ⟨a, ha, b, hb, f, g, hf, hg, hne⟩ := hnot
    exact ⟨f, (h.files f).mpr ⟨a, ha, hf⟩, g, (h.files g).mpr ⟨b, hb, hg⟩, hne⟩
  · rintro ⟨f, hf, g, hg, hne⟩ halike
    obtain ⟨a, ha, haf⟩ := (h.files f).mp hf
    obtain ⟨b, hb, hbg⟩ := (h.files g).mp hg
    exact hne (halike a ha b hb f g haf hbg)

theorem LineSearch.Of.rows_ne_nil (h : done.Of sourceSuffix requestedLine rows) (hsites : done.sites ≠ []) :
    rows ≠ [] := by
  rintro rfl
  obtain ⟨site, hsite⟩ := List.exists_mem_of_ne_nil _ hsites
  obtain ⟨row, hrow, -⟩ := (h.sites site).mp hsite
  cases hrow

/-- The three ways to return. -/
theorem LineSearch.Of.finish_cases (h : done.Of sourceSuffix requestedLine rows)
    (hlines : rows ≠ [] → done.sawLines = true) :
    (done.sites = [] ∧ (done.finish sourceSuffix = .error .noLineInfo ∨
        done.finish sourceSuffix = .error (.sourceFileNotFound sourceSuffix))) ∨
      (done.sites ≠ [] ∧ ¬ SpelledAlike sourceSuffix rows ∧
        done.finish sourceSuffix = .error (.sourceFileAmbiguous sourceSuffix done.matchedFiles)) ∨
      (done.sites ≠ [] ∧ SpelledAlike sourceSuffix rows ∧
        done.finish sourceSuffix = .ok (retainFirst [] done.sites)) := by
  unfold LineSearch.finish
  rcases eq_or_ne done.sites [] with hnone | hsome
  · refine .inl ⟨hnone, ?_⟩
    have hsaw : done.sawFile = false := Bool.eq_false_of_not_eq_true fun hsaw => h.sawFile.mp hsaw hnone
    rw [hsaw]
    cases done.sawLines with
    | false => exact .inl rfl
    | true => exact .inr rfl
  · rw [hlines (h.rows_ne_nil hsome), h.sawFile.mpr hsome]
    simp only [Bool.not_true, Bool.false_eq_true, if_false]
    rcases Nat.lt_or_ge 1 done.matchedFiles.length with hmany | hone
    · rw [if_pos hmany]
      exact .inr (.inl ⟨hsome, h.spelledAlike_iff.mpr hmany, rfl⟩)
    · rw [if_neg (Nat.not_lt.mpr hone)]
      have halike : SpelledAlike sourceSuffix rows :=
        not_not.mp fun hnot => Nat.not_lt.mpr hone (h.spelledAlike_iff.mp hnot)
      refine .inr (.inr ⟨hsome, halike, ?_⟩)
      -- the address of the first site is kept
      obtain ⟨site, hsite⟩ := List.exists_mem_of_ne_nil _ hsome
      obtain ⟨kept, hkept, -⟩ := retainFirst_keeps hsite (List.not_mem_nil (a := site.address))
      rcases hretained : retainFirst [] done.sites with - | ⟨first, others⟩
      · rw [hretained] at hkept
        cases hkept
      · rfl

/-- The file is taken for ambiguous when the rows that match are not spelled alike. -/
theorem LineSearch.Of.ambiguous_iff (h : done.Of sourceSuffix requestedLine rows)
    (hlines : rows ≠ [] → done.sawLines = true) :
    (∃ candidates, done.finish sourceSuffix = .error (.sourceFileAmbiguous sourceSuffix candidates)) ↔
      ¬ SpelledAlike sourceSuffix rows := by
  rcases h.finish_cases hlines with ⟨hnone, hresult⟩ | ⟨-, hnot, hresult⟩ | ⟨-, halike, hresult⟩
  · refine iff_of_false ?_ (not_not.mpr fun a ha b _ f g hf _ => ?_)
    · rintro ⟨candidates, hambiguous⟩
      rcases hresult with hresult | hresult <;> cases hresult.symm.trans hambiguous
    · have hsite := (h.sites ⟨a.address, f, requestedLine, []⟩).mpr ⟨a, ha, f, hf, rfl⟩
      rw [hnone] at hsite
      cases hsite
  · exact iff_of_true ⟨_, hresult⟩ hnot
  · refine iff_of_false ?_ (not_not.mpr halike)
    rintro ⟨candidates, hambiguous⟩
    cases hresult.symm.trans hambiguous

/-- The sites lie in files that end in the path asked for when every address of a match does. -/
theorem LineSearch.Of.sites_iff (h : done.Of sourceSuffix requestedLine rows)
    (hlines : rows ≠ [] → done.sawLines = true) :
    (∀ sites, done.finish sourceSuffix = .ok sites → ∀ site ∈ sites, ∃ row ∈ rows,
        row.address = site.address ∧ row.spelling sourceSuffix = some site.file ∧ row.Belongs sourceSuffix) ↔
      (SpelledAlike sourceSuffix rows → EachBelongs sourceSuffix rows) := by
  constructor
  · intro hsites halike a ha hspelled
    obtain ⟨f, hf⟩ := Option.isSome_iff_exists.mp hspelled
    have hsite := (h.sites ⟨a.address, f, requestedLine, []⟩).mpr ⟨a, ha, f, hf, rfl⟩
    rcases h.finish_cases hlines with ⟨hnone, -⟩ | ⟨-, hnot, -⟩ | ⟨-, -, hresult⟩
    · rw [hnone] at hsite
      cases hsite
    · exact absurd halike hnot
    · obtain ⟨kept, hkept, haddress⟩ := retainFirst_keeps hsite (List.not_mem_nil (a := a.address))
      obtain ⟨row, hrow, hrowAddress, hrowSpelling, hbelongs⟩ := hsites _ hresult kept hkept
      exact ⟨row, hrow, hrowAddress.trans haddress, Option.isSome_iff_exists.mpr ⟨_, hrowSpelling⟩, hbelongs⟩
  · intro heach sites hok site hsite
    rcases h.finish_cases hlines with ⟨-, hresult⟩ | ⟨-, -, hresult⟩ | ⟨-, halike, hresult⟩
    · rcases hresult with hresult | hresult <;> cases hresult.symm.trans hok
    · cases hresult.symm.trans hok
    · cases hresult.symm.trans hok
      obtain ⟨a, ha, f, hf, rfl⟩ := (h.sites site).mp (mem_of_mem_retainFirst hsite)
      obtain ⟨b, hb, haddress, hspelled, hbelongs⟩ := heach halike a ha (Option.isSome_iff_exists.mpr ⟨f, hf⟩)
      obtain ⟨g, hg⟩ := Option.isSome_iff_exists.mp hspelled
      rw [halike b hb a ha g f hg hf] at hg
      exact ⟨b, hb, haddress, hg, hbelongs⟩

end

/-- The search over a file that reads ends with the sites and the files of its rows. -/
theorem resolveLine_eq (sourceSuffix : String) {object : Except String LineObject} {rows : List SourceRow}
    (hrows : debugRows requestedLine object = .ok rows) :
    ∃ done : LineSearch, resolveLine sourceSuffix requestedLine object = done.finish sourceSuffix ∧
      done.Of sourceSuffix requestedLine rows ∧ (rows ≠ [] → done.sawLines = true) := by
  unfold debugRows at hrows
  unfold resolveLine
  rcases object with error | object
  · cases hrows
  · dsimp only at hrows ⊢
    split at hrows
    · cases hrows
    · next hinfo =>
      rw [if_neg hinfo]
      rcases hunits : object.units with error | units <;> rw [hunits] at hrows
      · cases hrows
      · have hstart : LineSearch.Of sourceSuffix requestedLine [] ⟨[], false, false, []⟩ := by
          refine ⟨iff_of_false Bool.false_ne_true (· rfl), List.nodup_nil, fun f => ?_, fun site => ?_⟩
          · exact iff_of_false List.not_mem_nil fun ⟨_, hrow, _⟩ => nomatch hrow
          · exact iff_of_false List.not_mem_nil fun ⟨_, hrow, _⟩ => nomatch hrow
        obtain ⟨done, hdone, hof, hlines⟩ := visitUnits_of hrows hstart (absurd rfl ·)
        exact ⟨done, by dsimp only; rw [hdone]; rfl, hof, hlines⟩

/-- `resolve_line` does what it is for exactly when the rows that match are spelled alike
where they are of one file, and then at addresses of that file. -/
theorem resolves_iff {object : Except String LineObject} {rows : List SourceRow}
    (hrows : debugRows requestedLine object = .ok rows) :
    Resolves sourceSuffix rows (resolveLine sourceSuffix requestedLine object) ↔
      (SpelledAlike sourceSuffix rows ↔ OneFile sourceSuffix rows) ∧
        (SpelledAlike sourceSuffix rows → EachBelongs sourceSuffix rows) := by
  obtain ⟨done, hresult, hof, hlines⟩ := resolveLine_eq sourceSuffix hrows
  have htwo : (∃ a ∈ rows, ∃ b ∈ rows,
      a.Belongs sourceSuffix ∧ b.Belongs sourceSuffix ∧ a.filePath ≠ b.filePath) ↔ ¬ OneFile sourceSuffix rows := by
    unfold OneFile
    push Not
    rfl
  rw [hresult]
  constructor
  · rintro ⟨hsites, hambiguous⟩
    rw [hof.ambiguous_iff hlines, htwo] at hambiguous
    exact ⟨not_iff_not.mp hambiguous, (hof.sites_iff hlines).mp hsites⟩
  · rintro ⟨hfiles, heach⟩
    refine ⟨(hof.sites_iff hlines).mpr heach, ?_⟩
    rw [hof.ambiguous_iff hlines, htwo]
    exact not_congr hfiles

/-! ### A directory whose name ends in another's -/

/-- A table with a row of line 12 in `foo.c`. -/
def tableIn (compDir : String) : Except String LineObject :=
  .ok ⟨true, .ok [.ok ⟨some compDir, some (.ok [.ok ⟨4096, some 12, false, some ⟨.ok "foo.c", none⟩⟩,
    .ok ⟨4100, some 12, true, none⟩])⟩]⟩

def rowIn (compDir : String) : SourceRow := ⟨4096, "foo.c", none, some compDir⟩

/-- A table with two rows of line 12 in `foo.c` and one in a header. -/
def tableOfFiles : Except String LineObject :=
  .ok ⟨true, .ok [.ok ⟨some "/work/app", some (.ok [.ok ⟨4096, some 12, false, some ⟨.ok "foo.c", none⟩⟩,
    .ok ⟨4100, some 12, false, some ⟨.ok "foo.h", some "include"⟩⟩, .ok ⟨4104, some 13, false, none⟩,
    .ok ⟨4108, some 12, false, some ⟨.ok "foo.c", none⟩⟩, .ok ⟨4112, none, true, none⟩])⟩]⟩

def rowsOfFiles : List SourceRow :=
  [rowIn "/work/app", ⟨4100, "foo.h", some "include", some "/work/app"⟩, { rowIn "/work/app" with address := 4108 }]

theorem debugRows_tableOfFiles : debugRows 12 tableOfFiles = .ok rowsOfFiles := rfl

/-- In the directory `app` both sites are found, and the header is passed over. -/
theorem app_resolves : Resolves "app/foo.c" rowsOfFiles (resolveLine "app/foo.c" 12 tableOfFiles) := by
  have hsource : pathParts "app/foo.c" <:+ ["work", "app", "foo.c"] := by decide
  have hheader : ¬ pathParts "app/foo.c" <:+ ["work", "app", "include", "foo.h"] := by decide
  have hrows : ∀ a ∈ rowsOfFiles, a.spelling "app/foo.c" = none ∧ ¬ a.Belongs "app/foo.c" ∨
      a.spelling "app/foo.c" = some "work/app/foo.c" ∧ a.filePath = ["work", "app", "foo.c"] := by
    simp only [rowsOfFiles, List.forall_mem_cons, List.not_mem_nil, IsEmpty.forall_iff, implies_true, and_true]
    exact ⟨.inr ⟨by decide, by decide⟩, .inl ⟨by decide, hheader⟩, .inr ⟨by decide, by decide⟩⟩
  apply (resolves_iff debugRows_tableOfFiles).mpr
  refine ⟨iff_of_true ?_ ?_, fun _ a ha hspelled => ?_⟩
  · intro a ha b hb f g hf hg
    rcases hrows a ha with ⟨hnone, -⟩ | ⟨hsome, -⟩
    · rw [hnone] at hf
      cases hf
    rcases hrows b hb with ⟨hnone, -⟩ | ⟨hsome', -⟩
    · rw [hnone] at hg
      cases hg
    exact Option.some.inj (hf.symm.trans (hsome.trans (hsome'.symm.trans hg)))
  · intro a ha b hb hbelongs hbelongs'
    rcases hrows a ha with ⟨-, hnot⟩ | ⟨-, hpath⟩
    · exact absurd hbelongs hnot
    rcases hrows b hb with ⟨-, hnot⟩ | ⟨-, hpath'⟩
    · exact absurd hbelongs' hnot
    exact hpath.trans hpath'.symm
  · rcases hrows a ha with ⟨hnone, -⟩ | ⟨-, hpath⟩
    · rw [hnone] at hspelled
      cases hspelled
    · refine ⟨a, ha, rfl, hspelled, ?_⟩
      rw [SourceRow.Belongs, hpath]
      exact hsource

/-- In the directory `myapp` it is found too. -/
theorem myapp_resolved :
    resolveLine "app/foo.c" 12 (tableIn "/work/myapp") = .ok [⟨4096, "work/myapp/foo.c", 12, []⟩] ∧
      (rowIn "/work/myapp").filePath = ["work", "myapp", "foo.c"] ∧
      ¬ Resolves "app/foo.c" [rowIn "/work/myapp"] (resolveLine "app/foo.c" 12 (tableIn "/work/myapp")) := by
  have hresolved : resolveLine "app/foo.c" 12 (tableIn "/work/myapp") =
      .ok [⟨4096, "work/myapp/foo.c", 12, []⟩] := by
    decide
  have hpath : (rowIn "/work/myapp").filePath = ["work", "myapp", "foo.c"] := by decide
  refine ⟨hresolved, hpath, fun h => ?_⟩
  obtain ⟨row, hrow, -, -, hbelongs⟩ := h.sites _ hresolved _ (List.mem_singleton_self _)
  cases List.mem_singleton.mp hrow
  unfold SourceRow.Belongs at hbelongs
  rw [hpath] at hbelongs
  exact absurd hbelongs (by decide)

end NativeAgent
