/-
LiveProbe/ScriptRegistry.lean

The scripts of the Node agent and the search for one by the end of its path:
`ScriptRegistry` and `resolveBySuffix`.

The answer is read off the sorted matches.  Their first length is the least one
(`minimal_of_sorted`), so what is found, missing or ambiguous depends on the set of
scripts alone (`resolution_found_iff`, `resolution_missing_iff`,
`of_resolution_ambiguous`).  The order in which an ambiguous answer lists them is
that of the sort, and there the order of registration shows where `localeCompare`
cannot tell two of them apart (`sameAnswer_iff`).

`localeCompare` and `fileURLToPath` are the host's.
-/
import LiveProbe.CodePoints
import LiveProbe.Comparators
import LiveProbe.Decoder
import LiveProbe.JsMap
import LiveProbe.PathSuffix

open JsString

namespace ScriptRegistry

/-! ### Paths -/

/-- What the host provides. -/
structure Host where
  /-- nothing when it throws -/
  fileURLToPath : JsString → Option JsString
  localeCompare : JsString → JsString → ℤ

/-- `decodeURIComponent`: a text as units and escaped bytes. -/
def escapes : JsString → Option (List (UInt16 ⊕ UInt8))
  | [] => some []
  | c :: t =>
    if c = 0x25 then
      match t with
      | a :: b :: rest =>
        match hexDigitValue a, hexDigitValue b, escapes rest with
        | some x, some y, some items => some (.inr (x * 16 + y).toUInt8 :: items)
        | _, _, _ => none
      | _ => none
    else (escapes t).map (.inl c :: ·)
where
  /-- The value of a hexadecimal digit. -/
  hexDigitValue (c : UInt16) : Option ℕ :=
    if 0x30 ≤ c ∧ c ≤ 0x39 then some (c.toNat - 0x30)
    else if 0x41 ≤ c ∧ c ≤ 0x46 then some (c.toNat - 0x37)
    else if 0x61 ≤ c ∧ c ≤ 0x66 then some (c.toNat - 0x57)
    else none

/-- The escaped bytes are UTF-8, and no unit stands inside a sequence. -/
def decodeEscapes : Option NativeAgent.Utf8Pending → List (UInt16 ⊕ UInt8) → Option JsString
  | none, [] => some []
  | some _, [] => none
  | none, .inl c :: items => (decodeEscapes none items).map (c :: ·)
  | some _, .inl _ :: _ => none
  | none, .inr byte :: items =>
    if byte < 0x80 then (decodeEscapes none items).map (byte.toUInt16 :: ·)
    else
      match NativeAgent.utf8Second byte with
      | some (low, high, rest) =>
        decodeEscapes (some { bits := byte.toNat % (0x40 >>> (rest + 1)), low, high, rest }) items
      | none => none
  | some p, .inr byte :: items =>
    if p.low ≤ byte ∧ byte ≤ p.high then
      let bits := p.bits * 64 + byte.toNat % 64
      if p.rest = 0 then (decodeEscapes none items).map (pointUnits bits ++ ·)
      else decodeEscapes (some { bits, low := 0x80, high := 0xBF, rest := p.rest - 1 }) items
    else none

/-- `decodeURIComponent`; nothing when it throws. -/
def decodeURIComponent (s : JsString) : Option JsString := (escapes s).bind (decodeEscapes none)

/-- `replace(/\/+/gu, "/")` -/
def squeezeSlashes : JsString → JsString
  | [] => []
  | c :: t => if c = 0x2F ∧ t.head? = some 0x2F then squeezeSlashes t else c :: squeezeSlashes t

section Resolving

variable (host : Host)

def normalizeScriptPath (value : JsString) : JsString :=
  let trimmed := trim value
  let normalized :=
    if (js "file://").isPrefixOf trimmed then (host.fileURLToPath trimmed).getD trimmed
    else
      let cut := trimmed.takeWhile fun c => c ≠ unit '?' ∧ c ≠ unit '#'
      (decodeURIComponent cut).getD cut
  squeezeSlashes (normalized.map fun c => if c = unit '\\' then unit '/' else c)

/-- `replace(/^(?:\.\.\/|\.\/|\/)+/u, "")` -/
def dropLeading : JsString → JsString
  | 0x2E :: 0x2E :: 0x2F :: t => dropLeading t
  | 0x2E :: 0x2F :: t => dropLeading t
  | 0x2F :: t => dropLeading t
  | s => s

def normalizedProbeSuffix (file : JsString) : JsString := dropLeading (normalizeScriptPath host file)

def matchesSuffix (path suffix : JsString) : Bool := path = suffix || (unit '/' :: suffix).isSuffixOf path

/-! ### The registry -/

structure RegisteredScript where
  scriptId : JsString
  url : JsString
  path : JsString
  deriving DecidableEq

/-- A field is nothing when it is no string. -/
structure ScriptParsedEvent where
  scriptId : Option JsString
  url : Option JsString

inductive ScriptResolution
  | found (script : RegisteredScript)
  | missing
  | ambiguous («matches» : List RegisteredScript)
  deriving DecidableEq

/-- A script as `register` makes it. -/
structure Parsed (script : RegisteredScript) : Prop where
  scriptId : script.scriptId ≠ []
  url : script.url ≠ []
  path : script.path = normalizeScriptPath host script.url

/-- The scripts, under their ids. -/
structure Registry where
  scripts : JsMap JsString RegisteredScript
  parsed : scripts.All fun id script => id = script.scriptId ∧ Parsed host script

variable {host}

def Registry.empty : Registry host := ⟨∅, .empty⟩

def Registry.put (registry : Registry host) (script : RegisteredScript) (h : Parsed host script) : Registry host :=
  ⟨registry.scripts.set script.scriptId script, registry.parsed.set ⟨rfl, h⟩⟩

/-- `register`: the script, when there is one, and the registry after it. -/
def Registry.register (registry : Registry host) (event : ScriptParsedEvent) : Option RegisteredScript × Registry host :=
  match event.scriptId, event.url with
  | some scriptId, some url =>
    if h : scriptId ≠ [] ∧ url ≠ [] then
      (some ⟨scriptId, url, normalizeScriptPath host url⟩,
        registry.put ⟨scriptId, url, normalizeScriptPath host url⟩ ⟨h.1, h.2, rfl⟩)
    else (none, registry)
  | _, _ => (none, registry)

/-- The registry after a run of events. -/
def registered (events : List ScriptParsedEvent) : Registry host :=
  events.foldl (fun registry event => (registry.register event).2) .empty

variable (host)

/-- The comparison of the sort in `#resolutionFromMatches`. -/
def compareScripts (left right : RegisteredScript) : ℤ :=
  if (left.path.length : ℤ) - right.path.length ≠ 0 then left.path.length - right.path.length
  else if host.localeCompare left.path right.path ≠ 0 then host.localeCompare left.path right.path
  else host.localeCompare left.scriptId right.scriptId

/-- The scripts that are as specific as the best one. -/
def equallySpecific (best : RegisteredScript) (sorted : List RegisteredScript) : List RegisteredScript :=
  sorted.filter fun candidate => candidate.path.length = best.path.length

/-- `#resolutionFromMatches` -/
def resolutionFromMatches (scripts : List RegisteredScript) : ScriptResolution :=
  match Comparator.sort (compareScripts host) scripts with
  | [] => .missing
  | best :: rest =>
    if 1 < (equallySpecific best (best :: rest)).length then .ambiguous (equallySpecific best (best :: rest))
    else .found best

variable {host}

/-- The scripts whose path ends with a suffix. -/
def Registry.matching (registry : Registry host) (suffix : JsString) : List RegisteredScript :=
  registry.scripts.values.filter fun script => matchesSuffix script.path suffix

def Registry.resolveBySuffix (registry : Registry host) (file : JsString) : ScriptResolution :=
  if normalizedProbeSuffix host file = [] then .missing
  else resolutionFromMatches host (registry.matching (normalizedProbeSuffix host file))

/-! ### What is resolved -/

open Comparator

theorem consistent_compareScripts (h : Consistent host.localeCompare) : Consistent (compareScripts host) :=
  (Consistent.sub fun script : RegisteredScript => (script.path.length : ℤ)).lex
    ((h.comap RegisteredScript.path).lex (h.comap RegisteredScript.scriptId))

/-- The most specific of some scripts. -/
def Minimal (scripts : List RegisteredScript) (script : RegisteredScript) : Prop :=
  script ∈ scripts ∧ ∀ other ∈ scripts, script.path.length ≤ other.path.length

theorem length_le_of_compareScripts {left right : RegisteredScript} (h : compareScripts host left right ≤ 0) :
    left.path.length ≤ right.path.length := by
  rw [compareScripts] at h
  split at h <;> omega

/-- Scripts that tie in the comparison tie in each part of it. -/
theorem compareScripts_eq_zero {left right : RegisteredScript} :
    compareScripts host left right = 0 ↔ left.path.length = right.path.length ∧
      host.localeCompare left.path right.path = 0 ∧ host.localeCompare left.scriptId right.scriptId = 0 := by
  rw [compareScripts]
  split
  · omega
  · split
    · next hpath => exact iff_of_false hpath fun h => hpath h.2.1
    · next hlength hpath =>
      rw [not_not] at hlength hpath
      exact ⟨fun h => ⟨by omega, hpath, h⟩, fun h => h.2.2⟩

section Sorted

variable {scripts rest : List RegisteredScript} {best : RegisteredScript}

/-- The first of the sorted scripts is one of the most specific. -/
theorem minimal_of_sorted (h : Consistent host.localeCompare)
    (hsort : sort (compareScripts host) scripts = best :: rest) : Minimal scripts best := by
  have hperm := sort_perm (compareScripts host) scripts
  have hpairwise := pairwise_sort (consistent_compareScripts h) scripts
  rw [hsort] at hperm hpairwise
  refine ⟨hperm.mem_iff.mp List.mem_cons_self, fun other hother => ?_⟩
  rcases List.mem_cons.mp (hperm.mem_iff.mpr hother) with rfl | hrest
  · exact le_rfl
  · exact length_le_of_compareScripts ((List.pairwise_cons.mp hpairwise).1 other hrest)

theorem mem_equallySpecific (h : Consistent host.localeCompare)
    (hsort : sort (compareScripts host) scripts = best :: rest) (script : RegisteredScript) :
    script ∈ equallySpecific best (best :: rest) ↔ Minimal scripts script := by
  have hmin := minimal_of_sorted h hsort
  have hperm := sort_perm (compareScripts host) scripts
  rw [hsort] at hperm
  rw [equallySpecific, List.mem_filter, decide_eq_true_eq, hperm.mem_iff]
  constructor
  · rintro ⟨hmem, hlength⟩
    exact ⟨hmem, fun other hother => hlength ▸ hmin.2 other hother⟩
  · rintro ⟨hmem, hle⟩
    exact ⟨hmem, le_antisymm (hle best hmin.1) (hmin.2 script hmem)⟩

theorem nodup_equallySpecific (hnodup : scripts.Nodup) (hsort : sort (compareScripts host) scripts = best :: rest) :
    (equallySpecific best (best :: rest)).Nodup :=
  (hsort ▸ (sort_perm (compareScripts host) scripts).nodup_iff.mpr hnodup).filter _

theorem resolution_of_sorted (hsort : sort (compareScripts host) scripts = best :: rest) :
    resolutionFromMatches host scripts =
      if 1 < (equallySpecific best (best :: rest)).length then .ambiguous (equallySpecific best (best :: rest))
      else .found best := by
  rw [resolutionFromMatches, hsort]

theorem sort_eq_nil : sort (compareScripts host) scripts = [] ↔ scripts = [] := by
  have hperm := sort_perm (compareScripts host) scripts
  constructor
  · intro h
    rw [h] at hperm
    exact hperm.symm.eq_nil
  · rintro rfl
    rfl

end Sorted

theorem resolution_missing_iff (scripts : List RegisteredScript) :
    resolutionFromMatches host scripts = .missing ↔ scripts = [] := by
  cases hsort : sort (compareScripts host) scripts with
  | nil =>
    rw [resolutionFromMatches, hsort]
    exact iff_of_true rfl (sort_eq_nil.mp hsort)
  | cons best rest =>
    rw [resolution_of_sorted hsort]
    refine iff_of_false ?_ fun hnil => ?_
    · split <;> nofun
    · rw [sort_eq_nil.mpr hnil] at hsort
      cases hsort

theorem resolution_found_iff (h : Consistent host.localeCompare) {scripts : List RegisteredScript} (hnodup : scripts.Nodup)
    (script : RegisteredScript) :
    resolutionFromMatches host scripts = .found script ↔ ∀ other, Minimal scripts other ↔ other = script := by
  cases hsort : sort (compareScripts host) scripts with
  | nil =>
    rw [resolutionFromMatches, hsort]
    refine iff_of_false nofun fun hall => ?_
    have hmem := ((hall script).mpr rfl).1
    rw [sort_eq_nil.mp hsort] at hmem
    cases hmem
  | cons best rest =>
    have hbest : best ∈ equallySpecific best (best :: rest) :=
      (mem_equallySpecific h hsort best).mpr (minimal_of_sorted h hsort)
    rw [resolution_of_sorted hsort]
    constructor
    · intro hfound
      split at hfound
      · cases hfound
      · next hlength =>
        have heq := ScriptResolution.found.inj hfound
        subst heq
        intro other
        have hpos := List.length_pos_of_mem hbest
        rw [← mem_equallySpecific h hsort]
        obtain ⟨x, hx⟩ : ∃ x, equallySpecific best (best :: rest) = [x] := List.length_eq_one_iff.mp (by omega)
        rw [hx, List.mem_singleton] at hbest
        rw [hx, hbest, List.mem_singleton]
    · intro hall
      obtain rfl := (hall best).mp (minimal_of_sorted h hsort)
      rw [if_neg]
      intro hlength
      have hsingle : ∀ other ∈ equallySpecific best (best :: rest), other = best :=
        fun other hother => (hall other).mp ((mem_equallySpecific h hsort other).mp hother)
      have hle := (nodup_equallySpecific hnodup hsort).length_le_of_subset
        (fun other hother => List.mem_singleton.mpr (hsingle other hother) : _ ⊆ [best])
      rw [List.length_singleton] at hle
      omega

theorem of_resolution_ambiguous (h : Consistent host.localeCompare) {scripts listed : List RegisteredScript}
    (hnodup : scripts.Nodup) (hlisted : resolutionFromMatches host scripts = .ambiguous listed) :
    listed.Nodup ∧ ∀ script, script ∈ listed ↔ Minimal scripts script := by
  cases hsort : sort (compareScripts host) scripts with
  | nil =>
    rw [resolutionFromMatches, hsort] at hlisted
    cases hlisted
  | cons best rest =>
    rw [resolution_of_sorted hsort] at hlisted
    split at hlisted
    · cases hlisted
      exact ⟨nodup_equallySpecific hnodup hsort, mem_equallySpecific h hsort⟩
    · cases hlisted

/-! ### The order of registration -/

variable (host) in
/-- No two of the most specific scripts are equal to the comparison. -/
def NoTies (scripts : List RegisteredScript) : Prop :=
  ∀ s t, Minimal scripts s → Minimal scripts t → host.localeCompare s.path t.path = 0 →
    host.localeCompare s.scriptId t.scriptId = 0 → s = t

theorem minimal_congr {scripts scripts' : List RegisteredScript} (hperm : scripts.Perm scripts') (script : RegisteredScript) :
    Minimal scripts script ↔ Minimal scripts' script := by
  simp only [Minimal, hperm.mem_iff]

/-- Without ties the order of the scripts does not matter. -/
theorem resolution_eq_of_perm (h : Consistent host.localeCompare) {scripts scripts' : List RegisteredScript}
    (hperm : scripts.Perm scripts') (hties : NoTies host scripts) :
    resolutionFromMatches host scripts = resolutionFromMatches host scripts' := by
  have hsorted := ((sort_perm (compareScripts host) scripts).trans hperm).trans (sort_perm (compareScripts host) scripts').symm
  have hpairwise := pairwise_sort (consistent_compareScripts h) scripts
  have hpairwise' := pairwise_sort (consistent_compareScripts h) scripts'
  cases hsort : sort (compareScripts host) scripts with
  | nil =>
    rw [hsort] at hsorted
    rw [resolutionFromMatches, resolutionFromMatches, hsort, hsorted.symm.eq_nil]
  | cons best rest =>
    cases hsort' : sort (compareScripts host) scripts' with
    | nil =>
      rw [hsort, hsort'] at hsorted
      cases hsorted.eq_nil
    | cons best' rest' =>
      rw [hsort] at hsorted hpairwise
      rw [hsort'] at hsorted hpairwise'
      have hbest := minimal_of_sorted h hsort
      have hbest' := (minimal_congr hperm best').mpr (minimal_of_sorted h hsort')
      have hlength : best.path.length = best'.path.length :=
        le_antisymm (hbest.2 best' hbest'.1) (hbest'.2 best hbest.1)
      have hsame : equallySpecific best (best :: rest) = equallySpecific best' (best' :: rest') := by
        refine eq_of_perm (consistent_compareScripts h) (hpairwise.filter _) (hpairwise'.filter _) ?_ ?_
        · rw [equallySpecific, equallySpecific, hlength]
          exact hsorted.filter _
        · intro s hs t ht heq
          obtain ⟨-, hpath, hid⟩ := compareScripts_eq_zero.mp heq
          exact hties s t ((mem_equallySpecific h hsort s).mp hs) ((mem_equallySpecific h hsort t).mp ht) hpath hid
      rw [resolution_of_sorted hsort, resolution_of_sorted hsort', hsame]
      by_cases hmany : 1 < (equallySpecific best' (best' :: rest')).length
      · rw [if_pos hmany, if_pos hmany]
      · rw [if_neg hmany, if_neg hmany]
        have hmem := (mem_equallySpecific h hsort best).mpr hbest
        have hmem' := (mem_equallySpecific h hsort best').mpr hbest'
        have hpos := List.length_pos_of_mem hmem
        rw [← hsame] at hmany
        obtain ⟨x, hx⟩ : ∃ x, equallySpecific best (best :: rest) = [x] := List.length_eq_one_iff.mp (by omega)
        rw [hx, List.mem_singleton] at hmem hmem'
        rw [hmem, hmem']

/-- Scripts that tie are listed in the order in which they were registered. -/
theorem resolution_of_tie (h : Consistent host.localeCompare) {scripts : List RegisteredScript} (hnodup : scripts.Nodup)
    {s t : RegisteredScript} (hs : Minimal scripts s) (ht : Minimal scripts t)
    (hpath : host.localeCompare s.path t.path = 0) (hid : host.localeCompare s.scriptId t.scriptId = 0)
    (hst : [s, t].Sublist scripts) :
    ∃ listed, resolutionFromMatches host scripts = .ambiguous listed ∧ listed.Nodup ∧ [s, t].Sublist listed := by
  have htie := compareScripts_eq_zero.mpr ⟨le_antisymm (hs.2 t ht.1) (ht.2 s hs.1), hpath, hid⟩
  have hsub : [s, t].Sublist (sort (compareScripts host) scripts) := pair_sublist_sort hst htie
  cases hsort : sort (compareScripts host) scripts with
  | nil =>
    rw [hsort] at hsub
    cases hsub
  | cons best rest =>
    rw [hsort] at hsub
    have hsub' := hsub.filter fun candidate => decide (candidate.path.length = best.path.length)
    have hkeep : [s, t].filter (fun candidate => decide (candidate.path.length = best.path.length)) = [s, t] := by
      refine List.filter_eq_self.mpr fun x hx => (List.mem_filter.mp ((mem_equallySpecific h hsort x).mpr ?_)).2
      rcases List.mem_pair.mp hx with rfl | rfl
      · exact hs
      · exact ht
    rw [hkeep] at hsub'
    refine ⟨_, ?_, nodup_equallySpecific hnodup hsort, hsub'⟩
    have hle := hsub'.length_le
    rw [resolution_of_sorted hsort]
    exact if_pos hle

/-! ### Registries -/

theorem Registry.map_scriptId_values (registry : Registry host) :
    registry.scripts.values.map RegisteredScript.scriptId = registry.scripts.keys := by
  rw [JsMap.values, JsMap.keys, List.map_map]
  refine List.map_congr_left fun entry hentry => ?_
  exact (registry.parsed entry.1 entry.2 (JsMap.get?_eq_some_iff.mpr hentry)).1.symm

theorem Registry.nodup_values (registry : Registry host) : registry.scripts.values.Nodup := by
  refine List.Nodup.of_map RegisteredScript.scriptId ?_
  rw [registry.map_scriptId_values]
  exact registry.scripts.nodup

theorem Registry.parsed_of_mem (registry : Registry host) {script : RegisteredScript}
    (h : script ∈ registry.scripts.values) : Parsed host script := by
  obtain ⟨id, hentry⟩ := JsMap.mem_values_iff.mp h
  exact (registry.parsed id script (JsMap.get?_eq_some_iff.mpr hentry)).2

/-- The same scripts, registered in whatever order. -/
def SameScripts (registry registry' : Registry host) : Prop :=
  ∀ script, script ∈ registry.scripts.values ↔ script ∈ registry'.scripts.values

theorem SameScripts.perm {registry registry' : Registry host} (h : SameScripts registry registry') :
    registry.scripts.values.Perm registry'.scripts.values :=
  (List.perm_ext_iff_of_nodup registry.nodup_values registry'.nodup_values).mpr h

/-- The events that register some scripts. -/
def replay (scripts : List RegisteredScript) : List ScriptParsedEvent :=
  scripts.map fun script => ⟨some script.scriptId, some script.url⟩

theorem register_replay (registry : Registry host) {script : RegisteredScript} (h : Parsed host script) :
    (registry.register ⟨some script.scriptId, some script.url⟩).2 = registry.put script h := by
  obtain ⟨scriptId, url, path⟩ := script
  obtain ⟨hid, hurl, hpath⟩ := h
  obtain rfl : path = normalizeScriptPath host url := hpath
  rw [Registry.register]
  simp only
  rw [dif_pos ⟨hid, hurl⟩]

theorem scripts_foldl_replay (registry : Registry host) {scripts : List RegisteredScript}
    (h : ∀ script ∈ scripts, Parsed host script) :
    ((replay scripts).foldl (fun registry event => (registry.register event).2) registry).scripts =
      (scripts.map fun script => (script.scriptId, script)).foldl (fun m e => m.set e.1 e.2) registry.scripts := by
  induction scripts generalizing registry with
  | nil => rfl
  | cons script scripts ih =>
    rw [replay, List.map_cons, List.foldl_cons, register_replay registry (h script List.mem_cons_self)]
    exact ih _ fun other hother => h other (List.mem_cons_of_mem script hother)

/-- Any scripts with distinct ids can be registered in any order. -/
theorem values_replay {scripts : List RegisteredScript} (h : ∀ script ∈ scripts, Parsed host script)
    (hids : (scripts.map RegisteredScript.scriptId).Nodup) :
    (registered (replay scripts) : Registry host).scripts.values = scripts := by
  have hentries := JsMap.entries_ofEntries (l := scripts.map fun script => (script.scriptId, script))
    (by rw [List.map_map]; exact hids)
  rw [registered, JsMap.values, scripts_foldl_replay .empty h]
  exact (congrArg (List.map Prod.snd) hentries).trans (by rw [List.map_map]; exact List.map_id scripts)

/-! ### Answers -/

/-- One path ends with another, component by component. -/
def EndsWith (path suffix : JsString) : Prop := suffix.splitOn (unit '/') <:+ path.splitOn (unit '/')

theorem matchesSuffix_iff (path suffix : JsString) : matchesSuffix path suffix = true ↔ EndsWith path suffix := by
  rw [EndsWith, List.splitOn_suffix_iff, matchesSuffix, Bool.or_eq_true, decide_eq_true_eq, List.isSuffixOf_iff_suffix,
    eq_comm]

/-- The scripts whose path ends with the request. -/
def Registry.Candidate (registry : Registry host) (file : JsString) (script : RegisteredScript) : Prop :=
  script ∈ registry.scripts.values ∧ EndsWith script.path (normalizedProbeSuffix host file)

/-- Those of them with the shortest path. -/
def Registry.MostSpecific (registry : Registry host) (file : JsString) (script : RegisteredScript) : Prop :=
  registry.Candidate file script ∧ ∀ other, registry.Candidate file other → script.path.length ≤ other.path.length

/-- The answer is the one script, or that there is none, or all of several. -/
structure Registry.Answers (registry : Registry host) (file : JsString) : Prop where
  found : ∀ script, registry.resolveBySuffix file = .found script ↔
    ∀ other, registry.MostSpecific file other ↔ other = script
  missing : registry.resolveBySuffix file = .missing ↔ ∀ script, ¬ registry.Candidate file script
  ambiguous : ∀ listed, registry.resolveBySuffix file = .ambiguous listed →
    listed.Nodup ∧ ∀ script, script ∈ listed ↔ registry.MostSpecific file script

/-- Every run that registers the same scripts gets the same answer. -/
def SameAnswer (host : Host) (events : List ScriptParsedEvent) (file : JsString) : Prop :=
  ∀ events', SameScripts (registered events : Registry host) (registered events') →
    (registered events' : Registry host).resolveBySuffix file = (registered events : Registry host).resolveBySuffix file

/-- No two of the most specific scripts are equal to `localeCompare`, by path and by id. -/
def Registry.Distinguished (registry : Registry host) (file : JsString) : Prop :=
  ∀ s t, registry.MostSpecific file s → registry.MostSpecific file t → host.localeCompare s.path t.path = 0 →
    host.localeCompare s.scriptId t.scriptId = 0 → s = t

section

variable {registry registry' : Registry host} {file : JsString}

theorem mem_matching_iff (script : RegisteredScript) :
    script ∈ registry.matching (normalizedProbeSuffix host file) ↔ registry.Candidate file script := by
  rw [Registry.matching, List.mem_filter, matchesSuffix_iff]
  rfl

theorem minimal_matching_iff (script : RegisteredScript) :
    Minimal (registry.matching (normalizedProbeSuffix host file)) script ↔ registry.MostSpecific file script := by
  simp only [Minimal, mem_matching_iff]
  rfl

theorem noTies_matching_iff :
    NoTies host (registry.matching (normalizedProbeSuffix host file)) ↔ registry.Distinguished file := by
  simp only [NoTies, minimal_matching_iff]
  rfl

theorem resolveBySuffix_of_ne_nil (hfile : normalizedProbeSuffix host file ≠ []) :
    registry.resolveBySuffix file = resolutionFromMatches host (registry.matching (normalizedProbeSuffix host file)) :=
  if_neg hfile

theorem Registry.answers (h : Consistent host.localeCompare) (registry : Registry host)
    (hfile : normalizedProbeSuffix host file ≠ []) : registry.Answers file := by
  have hnodup : (registry.matching (normalizedProbeSuffix host file)).Nodup := registry.nodup_values.filter _
  refine ⟨fun script => ?_, ?_, fun listed hlisted => ?_⟩
  · rw [resolveBySuffix_of_ne_nil hfile, resolution_found_iff h hnodup]
    simp only [minimal_matching_iff]
  · rw [resolveBySuffix_of_ne_nil hfile, resolution_missing_iff, List.eq_nil_iff_forall_not_mem]
    simp only [mem_matching_iff]
  · rw [resolveBySuffix_of_ne_nil hfile] at hlisted
    have hall := of_resolution_ambiguous h hnodup hlisted
    simp only [minimal_matching_iff] at hall
    exact hall

/-- Where two scripts tie, the order of their registration shows. -/
theorem resolveBySuffix_of_tie (h : Consistent host.localeCompare) (hfile : normalizedProbeSuffix host file ≠ [])
    {s t : RegisteredScript} (hs : registry.MostSpecific file s) (ht : registry.MostSpecific file t)
    (hpath : host.localeCompare s.path t.path = 0) (hid : host.localeCompare s.scriptId t.scriptId = 0)
    (hst : [s, t].Sublist registry.scripts.values) :
    ∃ listed, registry.resolveBySuffix file = .ambiguous listed ∧ listed.Nodup ∧ [s, t].Sublist listed := by
  have hs' := (minimal_matching_iff s).mpr hs
  have ht' := (minimal_matching_iff t).mpr ht
  have hst' := hst.filter fun script => matchesSuffix script.path (normalizedProbeSuffix host file)
  have hkeep : [s, t].filter (fun script => matchesSuffix script.path (normalizedProbeSuffix host file)) = [s, t] := by
    refine List.filter_eq_self.mpr fun x hx => ?_
    rcases List.mem_pair.mp hx with rfl | rfl
    · exact (List.mem_filter.mp hs'.1).2
    · exact (List.mem_filter.mp ht'.1).2
  rw [hkeep] at hst'
  rw [resolveBySuffix_of_ne_nil hfile]
  exact resolution_of_tie h (registry.nodup_values.filter _) hs' ht' hpath hid hst'

theorem SameScripts.mostSpecific_iff (h : SameScripts registry registry') (script : RegisteredScript) :
    registry.MostSpecific file script ↔ registry'.MostSpecific file script := by
  simp only [Registry.MostSpecific, Registry.Candidate, h script, h _]

end

/-- The answer is the same for every order exactly when the most specific scripts can be told apart. -/
theorem sameAnswer_iff (h : Consistent host.localeCompare) (events : List ScriptParsedEvent) {file : JsString}
    (hfile : normalizedProbeSuffix host file ≠ []) :
    SameAnswer host events file ↔ (registered events : Registry host).Distinguished file := by
  constructor
  · intro hsame s t hs ht hpath hid
    by_contra hne
    -- registered first, then second, and the other way round
    have hordered : ∀ s t : RegisteredScript, s ≠ t → (registered events : Registry host).MostSpecific file s →
        (registered events : Registry host).MostSpecific file t → host.localeCompare s.path t.path = 0 →
        host.localeCompare s.scriptId t.scriptId = 0 →
        ∃ listed, (registered events : Registry host).resolveBySuffix file = .ambiguous listed ∧ listed.Nodup ∧
          [s, t].Sublist listed := by
      intro s t hne hs ht hpath hid
      let values := (registered events : Registry host).scripts.values
      have hperm : values.Perm (s :: t :: (values.erase s).erase t) := by
        refine (List.perm_cons_erase hs.1.1).trans (List.Perm.cons s (List.perm_cons_erase ?_))
        exact (List.mem_erase_of_ne hne.symm).mpr ht.1.1
      have hvalues : (registered (replay (s :: t :: (values.erase s).erase t)) : Registry host).scripts.values =
          s :: t :: (values.erase s).erase t := by
        refine values_replay (fun script hscript => ?_) ?_
        · exact (registered events : Registry host).parsed_of_mem (hperm.mem_iff.mpr hscript)
        · rw [← (hperm.map RegisteredScript.scriptId).nodup_iff, Registry.map_scriptId_values]
          exact (registered events : Registry host).scripts.nodup
      have hscripts : SameScripts (registered events : Registry host)
          (registered (replay (s :: t :: (values.erase s).erase t))) := by
        intro script
        rw [hvalues]
        exact hperm.mem_iff
      rw [← hsame _ hscripts]
      refine resolveBySuffix_of_tie h hfile ((hscripts.mostSpecific_iff s).mp hs) ((hscripts.mostSpecific_iff t).mp ht)
        hpath hid ?_
      rw [hvalues]
      exact List.Sublist.cons_cons s (List.Sublist.cons_cons t (List.nil_sublist _))
    obtain ⟨listed, hlisted, hnodup, hst⟩ := hordered s t hne hs ht hpath hid
    obtain ⟨listed', hlisted', -, hts⟩ := hordered t s (Ne.symm hne) ht hs (h.eq_symm hpath) (h.eq_symm hid)
    rw [hlisted] at hlisted'
    cases hlisted'
    exact not_pair_sublist hnodup hst hts
  · intro hdistinguished events' hscripts
    rw [resolveBySuffix_of_ne_nil hfile, resolveBySuffix_of_ne_nil hfile]
    exact (resolution_eq_of_perm h (hscripts.perm.filter _) (noTies_matching_iff.mpr hdistinguished)).symm

/-- What is answered to a request: nothing to an empty one, and to another what its candidates say, in an order that
is that of registration only where `localeCompare` leaves it open. -/
theorem resolveBySuffix_spec (h : Consistent host.localeCompare) (events : List ScriptParsedEvent) (file : JsString) :
    (normalizedProbeSuffix host file = [] → (registered events : Registry host).resolveBySuffix file = .missing) ∧
      (normalizedProbeSuffix host file ≠ [] → (registered events : Registry host).Answers file ∧
        (SameAnswer host events file ↔ (registered events : Registry host).Distinguished file)) :=
  ⟨fun hfile => if_pos hfile, fun hfile => ⟨Registry.answers h _ hfile, sameAnswer_iff h events hfile⟩⟩

end Resolving

namespace Sample

/-- A letter and a combining accent are the letter with the accent. -/
def compose : JsString → JsString
  | 0x65 :: 0x301 :: t => 0xE9 :: compose t
  | c :: t => c :: compose t
  | [] => []

def key (s : JsString) : List ℕ := (compose s).map UInt16.toNat

/-- An order of texts that takes canonically equivalent ones for equal. -/
def compareKeys (a b : JsString) : ℤ := if key a < key b then -1 else if key b < key a then 1 else 0

theorem compareKeys_neg (a b : JsString) : compareKeys a b < 0 ↔ key a < key b := by
  rw [compareKeys]
  split
  · next h => exact iff_of_true (by decide) h
  · next h =>
    refine iff_of_false ?_ h
    split <;> decide

theorem compareKeys_pos (a b : JsString) : 0 < compareKeys a b ↔ key b < key a := by
  rw [compareKeys]
  split
  · next h => exact iff_of_false (by decide) (List.lt_asymm h)
  · split
    · next h => exact iff_of_true (by decide) h
    · next h => exact iff_of_false (by decide) h

theorem consistent_compareKeys : Comparator.Consistent compareKeys where
  swap a b := (compareKeys_neg a b).trans (compareKeys_pos b a).symm
  trans a b c hab hbc := by
    rw [← not_lt, compareKeys_pos, List.not_lt] at hab hbc ⊢
    exact List.le_trans hab hbc

def host : Host := ⟨fun url => some (url.drop 7), compareKeys⟩

/-- Two scripts of one file, whose ids are one text in two spellings. -/
def composed : ScriptParsedEvent := ⟨some [0xE9], some (js "webpack:///app/pay.js?v=1")⟩
def decomposed : ScriptParsedEvent := ⟨some [0x65, 0x301], some (js "webpack:///app/pay.js?v=2")⟩

/-- A script whose path ends with a slash. -/
def folder : ScriptParsedEvent := ⟨some (js "7"), some (js "webpack:///app/")⟩

/-- A file of the same name, deeper down. -/
def nested : ScriptParsedEvent := ⟨some (js "8"), some (js "webpack:///app/lib/pay.js")⟩

theorem resolve_pay : (registered [composed, nested, folder] : Registry host).Answers (js "./pay.js") ∧
    (SameAnswer host [composed, nested, folder] (js "./pay.js") ↔
      (registered [composed, nested, folder] : Registry host).Distinguished (js "./pay.js")) :=
  (resolveBySuffix_spec consistent_compareKeys [composed, nested, folder] (js "./pay.js")).2 (by decide +kernel)

/-- The two scripts in both orders of registration. -/
theorem registered_both :
    (registered [composed, decomposed] : Registry host).scripts.values =
        [⟨[0xE9], js "webpack:///app/pay.js?v=1", js "webpack:/app/pay.js"⟩,
          ⟨[0x65, 0x301], js "webpack:///app/pay.js?v=2", js "webpack:/app/pay.js"⟩] ∧
      (registered [decomposed, composed] : Registry host).scripts.values =
        [⟨[0x65, 0x301], js "webpack:///app/pay.js?v=2", js "webpack:/app/pay.js"⟩,
          ⟨[0xE9], js "webpack:///app/pay.js?v=1", js "webpack:/app/pay.js"⟩] ∧
      (registered [decomposed, composed] : Registry host).resolveBySuffix (js "pay.js") ≠
        (registered [composed, decomposed] : Registry host).resolveBySuffix (js "pay.js") := by
  decide +kernel

theorem not_sameAnswer_both : ¬ SameAnswer host [composed, decomposed] (js "pay.js") := by
  intro h
  obtain ⟨hvalues, hswapped, hne⟩ := registered_both
  have hscripts : SameScripts (registered [composed, decomposed] : Registry host) (registered [decomposed, composed]) := by
    intro script
    rw [hvalues, hswapped, List.mem_pair, List.mem_pair, or_comm]
  exact hne (h _ hscripts)

theorem not_answers_folder : ¬ (registered [folder] : Registry host).Answers (js "./") := by
  intro h
  have hvalues : (registered [folder] : Registry host).scripts.values =
      [⟨js "7", js "webpack:///app/", js "webpack:/app/"⟩] := by decide +kernel
  have hmissing : (registered [folder] : Registry host).resolveBySuffix (js "./") = .missing := by decide
  refine h.missing.mp hmissing ⟨js "7", js "webpack:///app/", js "webpack:/app/"⟩ ⟨?_, ?_⟩
  · rw [hvalues]
    exact List.mem_singleton_self _
  · rw [EndsWith]
    decide

/-- The empty request is answered with nothing though a path ends with it, and the order of registration shows where
two ids are one text to `localeCompare`. -/
theorem order_shows : (¬ ∀ events file, (registered events : Registry host).Answers file) ∧
    ¬ ∀ events file, SameAnswer host events file :=
  ⟨fun h => not_answers_folder (h _ _), fun h => not_sameAnswer_both (h _ _)⟩

end Sample

end ScriptRegistry
