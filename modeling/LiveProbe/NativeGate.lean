/-
LiveProbe/NativeGate.lean

The gate of the broker for native services and the shape checks of the agent.

Both sides read the paths of a log out of its template, the broker over the units
of the text and the agent over its characters.  A character that is none of `$`,
`{`, `}` and `.` has none of their units, so every step of the one match is a step
of the other (`bodies_textUnits`).

What the agent captures by it has to read first.  The broker takes any units for a
text; half of a surrogate pair alone is a text of JavaScript and none of Rust, and an
assignment that holds one is refused before its shape is looked at (`readAssignment`).
-/
import LiveProbe.NativeAcceptance
import LiveProbe.NativeServices
import LiveProbe.OrderedSets
import LiveProbe.Templates

open JsString Protocol Schema

namespace NativeAgent

/-! ### The assignment -/

/-- `ProbeAssignment`, as far as the paths are read off it. -/
structure CaptureAssignment where
  kind : String
  watchPaths : Option (List String)
  template : Option String
  metricPath : Option String
  condition : Option SiteCondition

/-- `outbound_paths` -/
def CaptureAssignment.outboundPaths (probe : CaptureAssignment) : Except String (List String) :=
  if probe.kind = "counter" then
    if probe.condition.isSome then
      .error "unsupported-location-expression: conditional native counters cannot aggregate in BPF"
    else .ok []
  else if probe.kind = "snapshot" then
    let paths := probe.watchPaths.getD []
    if paths = [] then .error "native snapshots require watchPaths" else .ok (OrderedSet.ofList paths)
  else if probe.kind = "metric" then
    match probe.metricPath with
    | none => .error "metricPath is required"
    | some path => .ok (OrderedSet.ofList [path])
  else if probe.kind = "log" then
    match probe.template with
    | none => .error "template is required"
    | some template => .ok (OrderedSet.ofList (templatePaths template))
  else .error ("unsupported probe type " ++ probe.kind)

/-- `capture_paths` -/
def CaptureAssignment.capturePaths (probe : CaptureAssignment) : Except String (List String) := do
  let outbound ← probe.outboundPaths
  let paths := match probe.condition with
    | none => outbound
    | some condition => OrderedSet.insert condition.path outbound
  validateCapturePathCount paths.length
  return paths

/-- The assignment a site was planned for. -/
def CaptureSite.assignment (site : CaptureSite) : CaptureAssignment where
  kind := site.probe.kind
  watchPaths := site.watchPaths
  template := site.template
  metricPath := site.metricPath
  condition := site.condition

/-- The paths of a site are those of its assignment, each once. -/
theorem outboundPaths_assignment (site : CaptureSite) :
    site.assignment.outboundPaths = (outboundPaths site).map OrderedSet.ofList := by
  unfold CaptureAssignment.outboundPaths outboundPaths CaptureSite.assignment
  dsimp only
  split_ifs
  · rfl
  · rfl
  · rfl
  · rfl
  · rcases site.metricPath with - | path
    · rfl
    · rfl
  · rcases site.template with - | template
    · rfl
    · rfl
  · rfl

/-! ### Characters and units -/

/-- The units of some characters. -/
def textUnits (l : List Char) : JsString := l.flatMap fun c => pointUnits c.toNat

theorem textUnits_cons (c : Char) (l : List Char) : textUnits (c :: l) = pointUnits c.toNat ++ textUnits l := rfl

theorem textUnits_append (l m : List Char) : textUnits (l ++ m) = textUnits l ++ textUnits m := List.flatMap_append

theorem pointUnits_ne_nil (p : ℕ) : pointUnits p ≠ [] := by
  unfold pointUnits
  split
  · exact List.cons_ne_nil _ _
  · exact List.cons_ne_nil _ _

/-- A character is no surrogate, and its number has 21 bits. -/
theorem toNat_scalar (c : Char) : c.toNat < 0xD800 ∨ 0xDFFF < c.toNat ∧ c.toNat < 0x110000 := c.valid

theorem toNat_toUInt16 {n : ℕ} (h : n < 0x10000) : n.toUInt16.toNat = n := by
  rw [Nat.toUInt16, UInt16.toNat_ofNat']
  exact Nat.mod_eq_of_lt h

/-- The unit of an ASCII character is in no other. -/
theorem eq_of_unit_mem {c a : Char} (ha : a.toNat < 0x80) (h : unit a ∈ pointUnits c.toNat) : c = a := by
  have hunit : (unit a).toNat = a.toNat := toNat_toUInt16 (by omega)
  have hsurrogate : ∀ n, 0xD800 ≤ n → n < 0xE000 → unit a ≠ n.toUInt16 := by
    intro n hlow hhigh he
    have hn := congrArg UInt16.toNat he
    rw [hunit, toNat_toUInt16 (by omega)] at hn
    omega
  have hscalar := toNat_scalar c
  unfold pointUnits at h
  split at h
  · next hsmall =>
    have hn := congrArg UInt16.toNat (List.mem_singleton.mp h)
    rw [hunit, toNat_toUInt16 hsmall] at hn
    exact Char.toNat_inj.mp hn.symm
  · rcases List.mem_cons.mp h with he | he
    · exact absurd he (hsurrogate _ (by omega) (by omega))
    · exact absurd (List.mem_singleton.mp he) (hsurrogate _ (by omega) (by omega))

theorem pointUnits_ascii {a : Char} (ha : a.toNat < 0x80) : pointUnits a.toNat = [unit a] := by
  unfold pointUnits
  rw [if_pos (by omega)]
  rfl

/-- The units of a character are read back as it. -/
theorem codePoints_pointUnits (c : Char) : codePoints (pointUnits c.toNat) = [c.toNat] := by
  have hscalar := toNat_scalar c
  unfold pointUnits
  split
  · next hsmall => rw [codePoints, toNat_toUInt16 hsmall]
  · next hlarge =>
    have hhigh : ((0xD800 + (c.toNat - 0x10000) / 0x400).toUInt16).toNat = 0xD800 + (c.toNat - 0x10000) / 0x400 :=
      toNat_toUInt16 (by omega)
    have hlow : ((0xDC00 + (c.toNat - 0x10000) % 0x400).toUInt16).toNat = 0xDC00 + (c.toNat - 0x10000) % 0x400 :=
      toNat_toUInt16 (by omega)
    generalize (0xD800 + (c.toNat - 0x10000) / 0x400).toUInt16 = high at hhigh
    generalize (0xDC00 + (c.toNat - 0x10000) % 0x400).toUInt16 = low at hlow
    have hpair : (isHighSurrogate high && isLowSurrogate low) = true := by
      simp only [isHighSurrogate, isLowSurrogate, Bool.and_eq_true, decide_eq_true_eq, UInt16.le_iff_toNat_le,
        UInt16.reduceToNat, hhigh, hlow]
      omega
    rw [codePoints, if_pos hpair]
    show [pairPoint high low] = [c.toNat]
    have hpoint : pairPoint high low = c.toNat := by
      unfold pairPoint
      omega
    rw [hpoint]

/-- A character does not end in half of a pair. -/
theorem not_joins_pointUnits (c : Char) (t : JsString) : ¬ joins (pointUnits c.toNat) t := by
  rintro ⟨last, d, hlast, -, hhigh, -⟩
  have hscalar := toNat_scalar c
  simp only [isHighSurrogate, Bool.and_eq_true, decide_eq_true_eq, UInt16.le_iff_toNat_le,
    UInt16.reduceToNat] at hhigh
  have hunit : ∀ n, n < 0x10000 → n.toUInt16 = last → n = last.toNat := fun n hn he => he ▸ (toNat_toUInt16 hn).symm
  unfold pointUnits at hlast
  split at hlast
  · next hsmall =>
    have hlast := hunit _ hsmall (Option.some.inj hlast)
    omega
  · have hlast := hunit _ (by omega) (Option.some.inj hlast)
    omega

theorem codePoints_textUnits (l : List Char) : codePoints (textUnits l) = l.map Char.toNat := by
  induction l with
  | nil => rfl
  | cons c l ih =>
    rw [textUnits_cons, codePoints_append (not_joins_pointUnits c _), codePoints_pointUnits, ih]
    rfl

theorem textUnits_injective : Function.Injective textUnits := by
  intro l m h
  have hpoints := congrArg codePoints h
  rw [codePoints_textUnits, codePoints_textUnits] at hpoints
  exact (List.map_injective_iff.mpr fun a b he => Char.toNat_inj.mp he) hpoints

theorem wire_injective : Function.Injective wire := fun _ _ h => String.toList_inj.mp (textUnits_injective h)

/-! ### The texts the agent reads -/

/-- The character of a code point; a surrogate has none. -/
def readPoint (n : ℕ) : Option Char := if (Char.ofNat n).toNat = n then some (Char.ofNat n) else none

/-- `serde_json` on a `String`: a lone surrogate is refused. -/
def readText (s : JsString) : Option String := ((codePoints s).mapM readPoint).map String.ofList

/-- `String.prototype.isWellFormed` -/
def isWellFormed (s : JsString) : Bool := (codePoints s).all fun n => n < 0xD800 || 0xDFFF < n

theorem readPoint_eq_some {n : ℕ} {c : Char} : readPoint n = some c ↔ c.toNat = n := by
  unfold readPoint
  constructor
  · intro h
    split at h
    · next hn =>
      cases h
      exact hn
    · cases h
  · rintro rfl
    rw [Char.ofNat_toNat, if_pos rfl]

theorem isSome_readPoint {n : ℕ} : (readPoint n).isSome = true ↔ n.isValidChar := by
  rw [Option.isSome_iff_exists]
  constructor
  · rintro ⟨c, hc⟩
    obtain rfl := readPoint_eq_some.mp hc
    exact c.valid
  · intro h
    refine ⟨Char.ofNat n, readPoint_eq_some.mpr ?_⟩
    rw [Char.ofNat, dif_pos h]
    rfl

/-- A reading that undoes a writing, over a list. -/
theorem mapM_eq_some {α β : Type} {read : α → Option β} {write : β → α} (h : ∀ a b, read a = some b ↔ write b = a)
    {l : List α} {m : List β} : l.mapM read = some m ↔ m.map write = l := by
  induction l generalizing m with
  | nil => simp [eq_comm]
  | cons a l ih =>
    simp only [List.mapM_cons, Option.bind_eq_bind, Option.bind_eq_some_iff, Option.pure_def, Option.some.injEq, h, ih]
    constructor
    · rintro ⟨b, rfl, m, rfl, rfl⟩
      rfl
    · intro hm
      obtain ⟨b, m, rfl, hb, hm⟩ := List.map_eq_cons_iff.mp hm
      exact ⟨b, hb, m, hm, rfl⟩

theorem isSome_mapM {α β : Type} {read : α → Option β} (l : List α) :
    (l.mapM read).isSome = l.all fun a => (read a).isSome := by
  induction l with
  | nil => rfl
  | cons a l ih =>
    rw [List.mapM_cons, List.all_cons, ← ih]
    cases read a with
    | none => rfl
    | some b => cases l.mapM read <;> rfl

/-- **The agent reads the texts it could have written.** -/
theorem readText_eq_some {s : JsString} {t : String} : readText s = some t ↔ wire t = s := by
  unfold readText
  rw [Option.map_eq_some_iff]
  simp only [mapM_eq_some fun a b => readPoint_eq_some]
  constructor
  · rintro ⟨l, hl, rfl⟩
    rw [← units_codePoints s, ← hl, wire_ofList, List.flatMap_map]
  · rintro rfl
    exact ⟨t.toList, (codePoints_textUnits _).symm, String.ofList_toList⟩

theorem codePoints_lt (s : JsString) : ∀ n ∈ codePoints s, n < 0x110000 := by
  induction s using codePoints.induct with
  | case1 => exact List.forall_mem_nil _
  | case2 c =>
    exact List.forall_mem_singleton.mpr (c.toNat_lt.trans (by decide))
  | case3 c d t hpair ih =>
    rw [codePoints, if_pos hpair]
    simp only [isHighSurrogate, isLowSurrogate, Bool.and_eq_true, decide_eq_true_eq, UInt16.le_iff_toNat_le,
      UInt16.reduceToNat] at hpair
    have hpoint : pairPoint c d < 0x110000 := by
      unfold pairPoint
      omega
    exact List.forall_mem_cons.mpr ⟨hpoint, ih⟩
  | case4 c d t hpair ih =>
    rw [codePoints, if_neg hpair]
    exact List.forall_mem_cons.mpr ⟨c.toNat_lt.trans (by decide), ih⟩

/-- A text is read exactly when it has no lone surrogate. -/
theorem isSome_readText (s : JsString) : (readText s).isSome = isWellFormed s := by
  unfold readText isWellFormed
  rw [Option.isSome_map, isSome_mapM, Bool.eq_iff_iff, List.all_eq_true, List.all_eq_true]
  refine forall₂_congr fun n hn => isSome_readPoint.trans ?_
  have hlt := codePoints_lt s n hn
  rw [Bool.or_eq_true, decide_eq_true_eq, decide_eq_true_eq]
  exact ⟨Or.imp_right And.left, Or.imp_right fun h => ⟨h, hlt⟩⟩

/-- ASCII is read. -/
theorem isWellFormed_ascii {s : JsString} (h : ∀ c ∈ s, c.toNat < 0x80) : isWellFormed s = true := by
  unfold isWellFormed
  rw [codePoints_eq_map, List.all_map, List.all_eq_true]
  · intro c hc
    have := h c hc
    exact Bool.or_eq_true_iff.mpr (.inl (decide_eq_true (by omega)))
  · intro c hc
    have := h c hc
    simp only [isHighSurrogate, Bool.and_eq_false_iff, decide_eq_false_iff_not, UInt16.le_iff_toNat_le,
      UInt16.reduceToNat]
    omega

/-! ### The two matches -/

/-- A text that begins with the unit of an ASCII character begins with the character. -/
theorem cons_of_textUnits {a : Char} (ha : a.toNat < 0x80) {l : List Char} {r : JsString}
    (h : textUnits l = unit a :: r) : ∃ t, l = a :: t ∧ textUnits t = r := by
  rcases l with - | ⟨c, t⟩
  · cases h
  · rw [textUnits_cons] at h
    obtain ⟨u, us, hunits⟩ := List.exists_cons_of_ne_nil (pointUnits_ne_nil c.toNat)
    rw [hunits, List.cons_append] at h
    obtain ⟨rfl, htail⟩ := List.cons.inj h
    obtain rfl := eq_of_unit_mem ha (hunits ▸ List.mem_cons_self)
    rw [pointUnits_ascii ha] at hunits
    obtain rfl := (List.cons.inj hunits).2
    exact ⟨t, rfl, htail⟩

theorem takeWhile_textUnits (l : List Char) :
    (textUnits l).takeWhile (fun u => u ≠ 0x7D) = textUnits (l.takeWhile (· ≠ '}')) := by
  induction l with
  | nil => rfl
  | cons c l ih =>
    rcases eq_or_ne c '}' with rfl | hne
    · rfl
    · have hinside : ∀ u ∈ pointUnits c.toNat, decide (u ≠ 0x7D) = true := by
        rintro u hu
        apply decide_eq_true
        rintro rfl
        exact hne (eq_of_unit_mem (a := '}') (by decide) hu)
      rw [textUnits_cons, List.takeWhile_append_of_pos hinside, ih, List.takeWhile_cons, if_pos (decide_eq_true hne)]
      rfl

theorem splitOn_textUnits (l : List Char) : (textUnits l).splitOn 0x2E = (l.splitOn '.').map textUnits := by
  have hdot : ∀ {l : List Char}, '.' ∉ l → (0x2E : UInt16) ∉ textUnits l := by
    intro l hnot hmem
    obtain ⟨c, hc, hunit⟩ := List.mem_flatMap.mp hmem
    exact hnot (eq_of_unit_mem (a := '.') (by decide) hunit ▸ hc)
  induction hlen : l.length using Nat.strong_induction_on generalizing l with
  | _ n ih =>
    by_cases hmem : '.' ∈ l
    · obtain ⟨a, r, rfl, ha⟩ := List.eq_append_cons_of_mem hmem
      have hr : r.length < n := by
        rw [← hlen, List.length_append, List.length_cons]
        omega
      rw [List.splitOn_append_cons_self_of_not_mem ha, textUnits_append]
      show (textUnits a ++ 0x2E :: textUnits r).splitOn 0x2E = _
      rw [List.splitOn_append_cons_self_of_not_mem (hdot ha), ih _ hr r rfl]
      rfl
    · rw [List.splitOn_eq_singleton hmem, List.splitOn_eq_singleton (hdot hmem)]
      rfl

theorem isDotPath_textUnits (l : List Char) :
    Protocol.isDotPath (textUnits l) = (l.splitOn '.').all (· ≠ []) := by
  unfold Protocol.isDotPath
  rw [splitOn_textUnits, List.all_map]
  refine congrArg (List.all _) (funext fun segment => ?_)
  have hnil : textUnits segment = [] ↔ segment = [] := textUnits_injective.eq_iff (b := [])
  exact decide_eq_decide.mpr (not_congr hnil)

theorem pathAt_cons (rest : List Char) :
    pathAt ('$' :: '{' :: rest) =
      if '}' ∈ rest ∧ ((rest.takeWhile (· ≠ '}')).splitOn '.').all (· ≠ []) then
        some (rest.takeWhile (· ≠ '}'))
      else none := rfl

/-- What the broker matches at the head of a text the agent matches there too. -/
theorem interpolationAt_textUnits (l : List Char) :
    Expression.interpolationAt (fun u => u ≠ 0x7D) Protocol.isDotPath (textUnits l) = (pathAt l).map textUnits := by
  by_cases hhead : ∃ rest, l = '$' :: '{' :: rest
  · obtain ⟨rest, rfl⟩ := hhead
    show Expression.interpolationAt _ _ (0x24 :: 0x7B :: textUnits rest) = _
    rw [pathAt_cons]
    by_cases hclosed : '}' ∈ rest
    · obtain ⟨a, b, rfl, ha⟩ := List.eq_append_cons_of_mem hclosed
      have htake : (a ++ '}' :: b).takeWhile (· ≠ '}') = a := by
        have hinside : ∀ c ∈ a, decide (c ≠ '}') = true := fun c hc =>
          decide_eq_true fun he : c = '}' => ha (he ▸ hc)
        rw [List.takeWhile_append_of_pos hinside, List.takeWhile_cons_of_neg (by decide), List.append_nil]
      have hunits : (textUnits (a ++ '}' :: b)).takeWhile (fun u => u ≠ 0x7D) = textUnits a := by
        rw [takeWhile_textUnits, htake]
      have hdrop : (textUnits (a ++ '}' :: b)).drop
          ((textUnits (a ++ '}' :: b)).takeWhile fun u => u ≠ 0x7D).length = 0x7D :: textUnits b := by
        rw [hunits, textUnits_append, List.drop_left]
        rfl
      rw [Expression.interpolationAt_closed hdrop, hunits, isDotPath_textUnits, htake]
      cases hpath : (a.splitOn '.').all (· ≠ []) with
      | false => rw [if_neg Bool.false_ne_true, if_neg fun h => Bool.false_ne_true h.2]; rfl
      | true => rw [if_pos rfl, if_pos ⟨hclosed, rfl⟩]; rfl
    · have htake : rest.takeWhile (· ≠ '}') = rest :=
        List.takeWhile_eq_self_iff.mpr fun c hc => decide_eq_true fun he => hclosed (he ▸ hc)
      have hdrop : (textUnits rest).drop ((textUnits rest).takeWhile fun u => u ≠ 0x7D).length = [] := by
        rw [takeWhile_textUnits, htake, List.drop_length]
      rw [if_neg fun h => hclosed h.1]
      rw [Expression.interpolationAt, hdrop]
      rfl
  · have hpath : pathAt l = none := by
      unfold pathAt
      split
      · next rest => exact absurd ⟨rest, rfl⟩ hhead
      · rfl
    rw [hpath]
    unfold Expression.interpolationAt
    split
    · next r hr =>
      obtain ⟨t, rfl, ht⟩ := cons_of_textUnits (a := '$') (by decide) hr
      obtain ⟨rest, rfl, -⟩ := cons_of_textUnits (a := '{') (by decide) ht
      exact absurd ⟨rest, rfl⟩ hhead
    · rfl

/-- The bodies the broker finds from an index on. -/
def bodies (index : ℕ) (s : JsString) : List JsString :=
  (Expression.matchAll (fun u => u ≠ 0x7D) Protocol.isDotPath index 0 s).map Prod.snd

theorem bodies_some {index : ℕ} {u : UInt16} {s body : JsString}
    (h : Expression.interpolationAt (fun u => u ≠ 0x7D) Protocol.isDotPath (u :: s) = some body) :
    bodies index (u :: s) = body :: bodies (index + 1 + (body.length + 2)) (s.drop (body.length + 2)) := by
  unfold bodies
  rw [Expression.matchAll, h]
  dsimp only
  rw [Expression.matchAll_skip]
  rfl

theorem bodies_none {index : ℕ} {u : UInt16} {s : JsString}
    (h : Expression.interpolationAt (fun u => u ≠ 0x7D) Protocol.isDotPath (u :: s) = none) :
    bodies index (u :: s) = bodies (index + 1) s := by
  unfold bodies
  rw [Expression.matchAll, h]

/-- Units that are no `$` begin no match. -/
theorem bodies_append {us : JsString} (h : (0x24 : UInt16) ∉ us) (index : ℕ) (s : JsString) :
    bodies index (us ++ s) = bodies (index + us.length) s := by
  induction us generalizing index with
  | nil => rfl
  | cons u us ih =>
    obtain ⟨hne, hrest⟩ := not_or.mp (mt List.mem_cons.mpr h)
    have hnone : Expression.interpolationAt (fun u => u ≠ 0x7D) Protocol.isDotPath (u :: (us ++ s)) = none := by
      unfold Expression.interpolationAt
      split
      · next heq => exact absurd (List.cons.inj heq).1.symm hne
      · rfl
    rw [List.cons_append, bodies_none hnone, ih hrest, List.length_cons, Nat.add_assoc, Nat.add_comm 1]

theorem templatePathsFrom_skip (skip : ℕ) (l : List Char) :
    templatePathsFrom skip l = templatePathsFrom 0 (l.drop skip) := by
  induction skip generalizing l with
  | zero => rfl
  | succ skip ih =>
    cases l with
    | nil => rfl
    | cons c t => exact ih t

theorem pathAt_eq_some {l path : List Char} (h : pathAt l = some path) :
    ∃ rest, l = '$' :: '{' :: (path ++ '}' :: rest) := by
  unfold pathAt at h
  split at h
  · next r =>
    dsimp only at h
    split at h
    · next hclosed =>
      obtain rfl := Option.some.inj h
      obtain ⟨a, b, rfl, ha⟩ := List.eq_append_cons_of_mem hclosed.1
      have hinside : ∀ c ∈ a, decide (c ≠ '}') = true := fun c hc =>
        decide_eq_true fun he : c = '}' => ha (he ▸ hc)
      rw [List.takeWhile_append_of_pos hinside, List.takeWhile_cons_of_neg (by decide), List.append_nil]
      exact ⟨b, rfl⟩
    · cases h
  · cases h

/-- **Both sides find the same paths in a template.** -/
theorem bodies_textUnits (index : ℕ) (l : List Char) :
    bodies index (textUnits l) = (templatePathsFrom 0 l).map wire := by
  induction hlen : l.length using Nat.strong_induction_on generalizing l index with
  | _ n ih =>
    rcases l with - | ⟨c, t⟩
    · rfl
    · have hhere := interpolationAt_textUnits (c :: t)
      rw [templatePathsFrom]
      rcases hpath : pathAt (c :: t) with - | path
      · -- nothing begins here: the units of the character are passed over
        have hshort : t.length < n := hlen ▸ Nat.lt_succ_self _
        dsimp only
        rw [← ih _ hshort (index + (pointUnits c.toNat).length) t rfl, textUnits_cons]
        rcases eq_or_ne c '$' with rfl | hne
        · rw [hpath] at hhere
          exact bodies_none hhere
        · exact bodies_append (fun hmem => hne (eq_of_unit_mem (a := '$') (by decide) hmem)) _ _
      · obtain ⟨rest, heq⟩ := pathAt_eq_some hpath
        obtain ⟨rfl, rfl⟩ := List.cons.inj heq
        rw [hpath] at hhere
        have hshort : rest.length < n := by
          rw [← hlen, List.length_cons, List.length_cons, List.length_append, List.length_cons]
          omega
        have hchars : ('{' :: (path ++ '}' :: rest)).drop (path.length + 2) = rest := by
          show (path ++ '}' :: rest).drop (path.length + 1) = rest
          rw [List.append_cons]
          exact List.drop_left' (by rw [List.length_append]; rfl)
        have hunits : (0x7B :: textUnits (path ++ '}' :: rest)).drop ((textUnits path).length + 2) = textUnits rest := by
          show (textUnits (path ++ '}' :: rest)).drop ((textUnits path).length + 1) = textUnits rest
          rw [textUnits_append]
          show (textUnits path ++ 0x7D :: textUnits rest).drop ((textUnits path).length + 1) = textUnits rest
          rw [List.append_cons]
          exact List.drop_left' (by rw [List.length_append]; rfl)
        dsimp only
        rw [templatePathsFrom_skip, hchars, List.map_cons, wire_ofList]
        have hunit : Expression.interpolationAt (fun u => u ≠ 0x7D) Protocol.isDotPath
            (0x24 :: 0x7B :: textUnits (path ++ '}' :: rest)) = some (textUnits path) := hhere
        show bodies index (0x24 :: 0x7B :: textUnits (path ++ '}' :: rest)) = textUnits path :: _
        rw [bodies_some hunit, hunits, ih _ hshort _ rest rfl]

theorem pathMatches_wire (template : String) :
    (Broker.pathMatches (wire template)).map (·.2) = (templatePaths template).map wire :=
  bodies_textUnits 0 template.toList

/-! ### The definition -/

end NativeAgent

/-- `watchPaths` of a definition -/
def DefinitionBody.watchPaths : DefinitionBody → Option (List JsString)
  | .snapshot watchPaths .. => watchPaths
  | _ => none

def DefinitionBody.template : DefinitionBody → Option JsString
  | .log template .. => some template
  | _ => none

def DefinitionBody.metricPath : DefinitionBody → Option JsString
  | .metric metricPath _ => metricPath
  | _ => none

namespace NativeAgent

/-- The name of an operator on the wire. -/
def opName : ConditionOp → String
  | .eq => "eq"
  | .ne => "ne"
  | .gt => "gt"
  | .gte => "gte"
  | .lt => "lt"
  | .lte => "lte"

def readScalar : JsonScalar → Option ConditionValue
  | .str s => (readText s).map .str
  | .num q => some (.num q)
  | .bool b => some (.bool b)
  | .null => some .null

def readCondition (c : Condition) : Option SiteCondition := do
  let path ← readText c.path
  let value ← readScalar c.value
  return { path, op := opName c.op, value }

/-- What the agent reads a `ProbeAssignment` from: every text of it is read, also those that
no path is taken from. -/
def readAssignment (probe : ProbeDefinition) : Option CaptureAssignment := do
  let _ ← readText probe.id
  let _ ← readText probe.file
  let kind ← readText (Broker.probeTypeName probe.type)
  let watchPaths ← probe.body.watchPaths.mapM (List.mapM readText)
  let template ← probe.body.template.mapM readText
  let metricPath ← probe.body.metricPath.mapM readText
  let condition ← probe.condition.mapM readCondition
  return { kind, watchPaths, template, metricPath, condition }

/-- The texts of a condition. -/
def conditionTexts (c : Condition) : List JsString :=
  match c.value with
  | .str s => [c.path, s]
  | _ => [c.path]

/-- The texts of a request that its assignment carries. -/
def assignedTexts (input : CreateProbeInput) : List JsString :=
  input.file :: (input.condition.toList.flatMap conditionTexts ++
    match input.body with
    | .snapshot watchPaths .. => watchPaths.getD []
    | .log template _ => [template]
    | .counter => []
    | .metric metricPath _ => metricPath.toList)

/-- The assignment carries what the definition says. -/
structure Carries (probe : ProbeDefinition) (assignment : CaptureAssignment) : Prop where
  kind : wire assignment.kind = Broker.probeTypeName probe.type
  watchPaths : assignment.watchPaths.map (List.map wire) = probe.body.watchPaths
  template : assignment.template.map wire = probe.body.template
  metricPath : assignment.metricPath.map wire = probe.body.metricPath
  condition : assignment.condition.map (fun c => wire c.path) = probe.condition.map (·.path)

theorem optionMapM_eq_some {α β : Type} {read : α → Option β} {write : β → α}
    (h : ∀ a b, read a = some b ↔ write b = a) {o : Option α} {o' : Option β} :
    o.mapM read = some o' ↔ o'.map write = o := by
  cases o with
  | none => simp [eq_comm]
  | some a =>
    rw [Option.mapM_some, Option.map_eq_map, Option.map_eq_some_iff, Option.map_eq_some_iff]
    simp only [h]
    exact ⟨fun ⟨b, hb, ho⟩ => ⟨b, ho.symm, hb⟩, fun ⟨b, ho, hb⟩ => ⟨b, hb, ho.symm⟩⟩

/-- What has been read says what the definition does. -/
theorem carries_of_read {probe : ProbeDefinition} {assignment : CaptureAssignment}
    (h : readAssignment probe = some assignment) : Carries probe assignment := by
  simp only [readAssignment, Option.bind_eq_bind, Option.bind_eq_some_iff, Option.pure_def, Option.some.injEq] at h
  obtain ⟨_, -, _, -, kind, hkind, watchPaths, hwatch, template, htemplate, metricPath, hmetric, condition,
    hcondition, rfl⟩ := h
  have htext : ∀ s t, readText s = some t ↔ wire t = s := fun s t => readText_eq_some
  refine ⟨readText_eq_some.mp hkind, ?_, (optionMapM_eq_some htext).mp htemplate,
    (optionMapM_eq_some htext).mp hmetric, ?_⟩
  · exact (optionMapM_eq_some fun l m => mapM_eq_some htext).mp hwatch
  · rcases hc : probe.condition with - | c
    · rw [hc] at hcondition
      cases hcondition
      rfl
    · rw [hc, Option.mapM_some] at hcondition
      obtain ⟨read, hread, rfl⟩ := Option.map_eq_some_iff.mp hcondition
      simp only [readCondition, Option.bind_eq_bind, Option.bind_eq_some_iff, Option.pure_def, Option.some.injEq] at hread
      obtain ⟨path, hpath, value, -, rfl⟩ := hread
      exact congrArg some (readText_eq_some.mp hpath)

theorem isSome_bind {α β : Type} {o : Option α} {f : α → Option β} {b : Bool} (h : ∀ a, (f a).isSome = b) :
    (o.bind f).isSome = (o.isSome && b) := by
  cases o with
  | none => rfl
  | some a => exact h a

theorem isSome_optionMapM {α β : Type} {read : α → Option β} (o : Option α) :
    (o.mapM read).isSome = o.all fun a => (read a).isSome := by
  cases o with
  | none => rfl
  | some a =>
    rw [Option.mapM_some, Option.all_some]
    exact Option.isSome_map

theorem isSome_readCondition (c : Condition) : (readCondition c).isSome = (conditionTexts c).all isWellFormed := by
  have hpath := isSome_readText c.path
  unfold readCondition conditionTexts
  rw [Option.bind_eq_bind, isSome_bind (b := (readScalar c.value).isSome), hpath]
  · rcases c.value with s | q | b | -
    · simp [readScalar, isSome_readText]
    · simp [readScalar]
    · simp [readScalar]
    · simp [readScalar]
  · intro path
    cases readScalar c.value <;> rfl

/-- The paths `nativeCapturePaths` takes from what depends on the type. -/
def bodyPaths : InputBody → List JsString
  | .snapshot watchPaths .. => watchPaths.getD []
  | .metric metricPath _ => metricPath.toList
  | .log template _ => (Broker.pathMatches template).map (·.2)
  | .counter => []

theorem nativeCapturePaths_eq (input : CreateProbeInput) :
    Broker.nativeCapturePaths input = ((input.condition.map (·.path)).toList ++ bodyPaths input.body).eraseDups := rfl

/-- A definition has the type of its request, and the texts of its paths. -/
def SameTexts : InputBody → DefinitionBody → Prop
  | .snapshot watchPaths .., body => ∃ e l n, body = .snapshot watchPaths e l n
  | .log template _, body => ∃ l e, body = .log template l e
  | .counter, body => body = .counter
  | .metric metricPath _, body => ∃ e, body = .metric metricPath e

theorem sameTexts_of_schema {jsep : JsString → Except JsString JsepNode} {body : InputBody}
    {compiled parsed : DefinitionBody} (hinput : inputBodySchema body = some body)
    (hcompiled : Broker.compileBody jsep body = .ok compiled) (hparsed : definitionBodySchema compiled = some parsed) :
    SameTexts body parsed := by
  cases body with
  | snapshot watchPaths watchExpressions includeStackLocals stackFrameLimit =>
    obtain ⟨paths, hpaths, hinput⟩ := Option.bind_eq_some_iff.mp hinput
    obtain ⟨_, -, hinput⟩ := Option.bind_eq_some_iff.mp hinput
    obtain ⟨_, -, hinput⟩ := Option.bind_eq_some_iff.mp hinput
    cases hinput
    obtain ⟨_, -, hcompiled⟩ := Outcome.bind_eq_ok.mp hcompiled
    cases hcompiled
    obtain ⟨paths, hparsedPaths, hparsed⟩ := Option.bind_eq_some_iff.mp hparsed
    obtain ⟨_, -, hparsed⟩ := Option.bind_eq_some_iff.mp hparsed
    obtain ⟨_, -, hparsed⟩ := Option.bind_eq_some_iff.mp hparsed
    cases hparsed
    cases hpaths.symm.trans hparsedPaths
    exact ⟨_, _, _, rfl⟩
  | log template logLevel =>
    obtain ⟨_, htext, hinput⟩ := Option.bind_eq_some_iff.mp hinput
    cases hinput
    obtain ⟨_, -, hcompiled⟩ := Outcome.bind_eq_ok.mp hcompiled
    cases hcompiled
    obtain ⟨_, hparsedText, hparsed⟩ := Option.bind_eq_some_iff.mp hparsed
    obtain ⟨_, -, hparsed⟩ := Option.bind_eq_some_iff.mp hparsed
    cases hparsed
    cases htext.symm.trans hparsedText
    exact ⟨_, _, rfl⟩
  | counter =>
    cases hcompiled
    cases hparsed
    rfl
  | metric metricPath metricExpression =>
    obtain ⟨_, hpath, hinput⟩ := Option.bind_eq_some_iff.mp hinput
    obtain ⟨_, -, hinput⟩ := Option.bind_eq_some_iff.mp hinput
    cases hinput
    obtain ⟨expression, rfl⟩ : ∃ expression, compiled = .metric metricPath expression := by
      simp only [Broker.compileBody, bind, Except.bind, pure, Except.pure] at hcompiled
      split at hcompiled
      · cases hcompiled
      · split at hcompiled
        · cases hcompiled
        · exact ⟨_, (Except.ok.inj hcompiled).symm⟩
    obtain ⟨_, hparsedPath, hparsed⟩ := Option.bind_eq_some_iff.mp hparsed
    obtain ⟨_, -, hparsed⟩ := Option.bind_eq_some_iff.mp hparsed
    cases hparsed
    cases hpath.symm.trans hparsedPath
    exact ⟨_, rfl⟩

/-- An assignment is read when its texts are. -/
theorem isSome_readAssignment {probe : ProbeDefinition} (hid : isWellFormed probe.id = true) :
    (readAssignment probe).isSome = (isWellFormed probe.file && (probe.body.watchPaths.all (List.all · isWellFormed) &&
      (probe.body.template.all isWellFormed && (probe.body.metricPath.all isWellFormed &&
        probe.condition.all fun c => (conditionTexts c).all isWellFormed)))) := by
  have htext : ∀ s, (readText s).isSome = isWellFormed s := isSome_readText
  have hkind : isWellFormed (Broker.probeTypeName probe.type) = true := by cases probe.type <;> decide
  unfold readAssignment
  simp only [Option.bind_eq_bind]
  rw [isSome_bind fun _ => isSome_bind fun _ => isSome_bind fun _ => isSome_bind fun _ => isSome_bind fun _ =>
    isSome_bind fun _ => isSome_bind (b := true) fun _ => rfl]
  simp only [isSome_optionMapM, isSome_mapM, isSome_readCondition, htext, hid, hkind, Bool.true_and, Bool.and_true]

/-- What a created definition says of its paths is what was asked for. -/
theorem definition_texts {jsep : JsString → Except JsString JsepNode} {input : CreateProbeInput}
    {compiled : CompiledInput} {id : JsString} {version : ℕ} {probe : ProbeDefinition}
    (hinput : createProbeInputSchema input = some input) (hcompiled : Broker.compileProbeInput jsep input = .ok compiled)
    (hprobe : probeDefinitionSchema (BrokerState.newDefinition compiled id version) = some probe) :
    isProbeId probe.id = true ∧ probe.file = input.file ∧ probe.condition = input.condition ∧
      SameTexts input.body probe.body := by
  obtain ⟨conditionExpression, body, -, hbody, rfl⟩ := Broker.compileProbeInput_eq_ok hcompiled
  simp only [createProbeInputSchema, Option.bind_eq_bind, Option.bind_eq_some_iff, Option.pure_def,
    Option.some.injEq] at hinput
  obtain ⟨_, -, _, -, _, hfile, _, -, _, hcondition, _, -, _, -, _, -, _, -, _, hinputBody, rfl⟩ := hinput
  simp only [probeDefinitionSchema, compiledInputSchema, BrokerState.newDefinition, Option.bind_eq_bind,
    Option.bind_eq_some_iff, Option.pure_def, Option.some.injEq] at hprobe
  obtain ⟨_, ⟨_, -, _, -, _, hparsedFile, _, -, _, hparsedCondition, _, -, _, -, _, -, _, -, _, hparsedBody, rfl⟩,
    _, hid, _, -, _, -, _, -, _, -, rfl⟩ := hprobe
  obtain ⟨hshape, rfl⟩ := refine_eq_some.mp hid
  exact ⟨hshape, Option.some.inj (hparsedFile.symm.trans hfile), Option.some.inj (hparsedCondition.symm.trans hcondition),
    sameTexts_of_schema hinputBody hbody hparsedBody⟩

/-! ### The gate -/

/-- What the gate of the broker lets through. -/
theorem checkNativeBackend_eq_ok {input : CreateProbeInput} (h : Broker.checkNativeBackend input = .ok ()) :
    Broker.nativeUnsupported input = none ∧
      (∀ w e l n, input.body = .snapshot w e l n → w.getD [] ≠ []) ∧
        (Broker.nativeCapturePaths input).length ≤ Broker.nativeMaxCaptureSlots := by
  unfold Broker.checkNativeBackend at h
  rcases hunsupported : Broker.nativeUnsupported input with - | ⟨what, instead⟩ <;> rw [hunsupported] at h
  · refine ⟨rfl, ?_, ?_⟩
    · intro w e l n hbody hempty
      rw [hbody] at h
      simp only [if_pos hempty] at h
      cases h
    · by_contra hmany
      have hlength := Nat.lt_of_not_le hmany
      rcases hbody : input.body with ⟨w, e, l, n⟩ | ⟨t, l⟩ | - | ⟨p, e⟩ <;> rw [hbody] at h <;> dsimp only at h
      · split at h
        · cases h
        · cases h
      · rw [if_pos hlength] at h
        cases h
      · rw [if_pos hlength] at h
        cases h
      · rw [if_pos hlength] at h
        cases h
  · cases h

/-- A native record leaves a probe only through the gate. -/
theorem createProbe_eq_ok {cfg : Config} {now : ℕ} {draws : ℕ → JsString} {input : CreateProbeInput}
    {scope : ResourceScope} {s : BrokerState} {record : ServiceRecord} {probe : ProbeDefinition}
    (hrecord : s.services.get? (serviceKey scope input.serviceId) = some record)
    (hbackend : record.backend = some .nativeEbpf)
    (h : (s.createProbe cfg now draws input scope).2 = .ok probe) :
    ∃ compiled id version, Broker.compileProbeInput cfg.jsep input = .ok compiled ∧
      Broker.checkNativeBackend input = .ok () ∧
        probeDefinitionSchema (BrokerState.newDefinition compiled id version) = some probe := by
  have hpart : s.partAt scope input.serviceId = some (BrokerState.nativePart record) := congrArg _ hrecord
  have hgate : ∀ compiled, Broker.compileProbeInput cfg.jsep input = .ok compiled →
      Broker.checkNativeBackend input = .ok () := by
    intro compiled hcompiled
    rcases hcheck : Broker.checkNativeBackend input with e | -
    · have hrefused := (BrokerState.createProbe_native hpart hbackend draws rfl hcompiled hcheck).symm.trans h
      cases hrefused
    · rfl
  unfold BrokerState.createProbe at h
  split at h
  · cases h
  · next compiled hcompiled =>
    dsimp only at h
    split at h
    · cases h
    · split at h
      · cases h
      · split at h
        · split at h
          · cases h
          · next parsed hparsed =>
            cases h
            exact ⟨compiled, _, _, hcompiled, hgate compiled hcompiled, hparsed⟩
        · cases h

/-! ### The shape of an assignment -/

section

variable {assignment : CaptureAssignment}

theorem outboundPaths_counter (hkind : assignment.kind = "counter") (hcondition : assignment.condition = none) :
    assignment.outboundPaths = .ok [] := by
  unfold CaptureAssignment.outboundPaths
  rw [hkind, hcondition]
  rfl

theorem outboundPaths_snapshot {paths : List String} (hkind : assignment.kind = "snapshot")
    (hpaths : assignment.watchPaths = some paths) (hne : paths ≠ []) :
    assignment.outboundPaths = .ok (OrderedSet.ofList paths) := by
  unfold CaptureAssignment.outboundPaths
  rw [hkind, hpaths, if_neg (by decide), if_pos rfl]
  exact if_neg hne

theorem outboundPaths_metric {path : String} (hkind : assignment.kind = "metric")
    (hpath : assignment.metricPath = some path) : assignment.outboundPaths = .ok (OrderedSet.ofList [path]) := by
  unfold CaptureAssignment.outboundPaths
  rw [hkind, hpath, if_neg (by decide), if_neg (by decide), if_pos rfl]

theorem outboundPaths_log {template : String} (hkind : assignment.kind = "log")
    (htemplate : assignment.template = some template) :
    assignment.outboundPaths = .ok (OrderedSet.ofList (templatePaths template)) := by
  unfold CaptureAssignment.outboundPaths
  rw [hkind, htemplate, if_neg (by decide), if_neg (by decide), if_neg (by decide), if_pos rfl]

/-- The set that is counted. -/
def CaptureAssignment.pathSet (assignment : CaptureAssignment) (outbound : List String) : List String :=
  match assignment.condition with
  | none => OrderedSet.ofList outbound
  | some condition => OrderedSet.insert condition.path (OrderedSet.ofList outbound)

theorem mem_pathSet {outbound : List String} {p : String} :
    p ∈ assignment.pathSet outbound ↔ p ∈ (assignment.condition.map (·.path)).toList ++ outbound := by
  unfold CaptureAssignment.pathSet
  rcases assignment.condition with - | condition
  · exact OrderedSet.mem_ofList
  · show p ∈ OrderedSet.insert condition.path _ ↔ p ∈ condition.path :: outbound
    rw [OrderedSet.mem_insert, OrderedSet.mem_ofList, List.mem_cons]

theorem nodup_pathSet (outbound : List String) : (assignment.pathSet outbound).Nodup := by
  unfold CaptureAssignment.pathSet
  split
  · exact OrderedSet.nodup_ofList _
  · exact OrderedSet.nodup_insert (OrderedSet.nodup_ofList _)

theorem capturePaths_of_le {outbound : List String} (h : assignment.outboundPaths = .ok (OrderedSet.ofList outbound))
    (hcount : (assignment.pathSet outbound).length ≤ MAX_CAPTURE_SLOTS) :
    assignment.capturePaths = .ok (assignment.pathSet outbound) := by
  have hvalid : validateCapturePathCount (assignment.pathSet outbound).length = .ok () := if_pos hcount
  unfold CaptureAssignment.capturePaths
  rw [h]
  show (validateCapturePathCount (assignment.pathSet outbound).length >>= fun _ =>
    Except.ok (assignment.pathSet outbound)) = _
  rw [hvalid]
  rfl

end

/-- A metric has a path or an expression. -/
theorem metric_of_compiled {jsep : JsString → Except JsString JsepNode} {input : CreateProbeInput}
    {compiled : CompiledInput} (h : Broker.compileProbeInput jsep input = .ok compiled)
    {metricPath metricExpression : Option JsString} (hbody : input.body = .metric metricPath metricExpression) :
    metricPath.isNone ≠ metricExpression.isNone := by
  obtain ⟨_, body, -, hcompiled, -⟩ := Broker.compileProbeInput_eq_ok h
  rw [hbody] at hcompiled
  intro hsame
  simp only [Broker.compileBody, bind, Except.bind, if_pos hsame] at hcompiled
  cases hcompiled

/-- The agent supports the shape of an assignment the gate has let through. -/
theorem outboundPaths_of_gate {input : CreateProbeInput} {probe : ProbeDefinition} {assignment : CaptureAssignment}
    (hgate : Broker.checkNativeBackend input = .ok ()) (hmetric : ∀ p e, input.body = .metric p e → p.isNone ≠ e.isNone)
    (hcondition : probe.condition = input.condition) (htexts : SameTexts input.body probe.body)
    (h : Carries probe assignment) :
    ∃ paths, assignment.outboundPaths = .ok (OrderedSet.ofList paths) ∧ paths.map wire = bodyPaths input.body := by
  obtain ⟨hsupported, hwatched, -⟩ := checkNativeBackend_eq_ok hgate
  have hkind : ∀ name : String, wire name = Broker.probeTypeName probe.body.type → assignment.kind = name :=
    fun name hname => wire_injective (h.kind.trans hname.symm)
  unfold Broker.nativeUnsupported at hsupported
  rcases hbody : input.body with ⟨w, e, l, n⟩ | ⟨t, l⟩ | - | ⟨p, e⟩ <;> rw [hbody] at htexts hsupported
  · obtain ⟨_, _, _, hparsed⟩ := htexts
    have hpaths : assignment.watchPaths.map (List.map wire) = w := by rw [h.watchPaths, hparsed]; rfl
    have hne := hwatched w e l n hbody
    rcases hwatch : assignment.watchPaths with - | paths <;> rw [hwatch] at hpaths <;> subst hpaths
    · exact absurd rfl hne
    · refine ⟨paths, outboundPaths_snapshot (hkind _ (by rw [hparsed]; rfl)) hwatch ?_, rfl⟩
      rintro rfl
      exact hne rfl
  · obtain ⟨_, _, hparsed⟩ := htexts
    have hcarried : assignment.template.map wire = some t := by rw [h.template, hparsed]; rfl
    obtain ⟨template, htemplate, rfl⟩ := Option.map_eq_some_iff.mp hcarried
    exact ⟨_, outboundPaths_log (hkind _ (by rw [hparsed]; rfl)) htemplate, (pathMatches_wire template).symm⟩
  · have hparsed : probe.body = .counter := htexts
    -- the gate takes no condition with a counter
    have hplain : input.condition = none := by
      rcases hc : input.condition with - | c
      · rfl
      · rw [hc] at hsupported
        split at hsupported
        · cases hsupported
        · cases hsupported
    have hnone : assignment.condition = none := by
      have hmap := h.condition
      rw [hcondition, hplain] at hmap
      exact Option.map_eq_none_iff.mp hmap
    exact ⟨[], outboundPaths_counter (hkind _ (by rw [hparsed]; rfl)) hnone, rfl⟩
  · obtain ⟨_, hparsed⟩ := htexts
    have hpath : assignment.metricPath.map wire = p := by rw [h.metricPath, hparsed]; rfl
    have hexpression : e = none := by
      rcases e with - | e
      · rfl
      · split at hsupported
        · cases hsupported
        · cases hsupported
    rcases hassigned : assignment.metricPath with - | path <;> rw [hassigned] at hpath <;> subst hpath
    · subst hexpression
      exact absurd rfl (hmetric none none hbody)
    · exact ⟨[path], outboundPaths_metric (hkind _ (by rw [hparsed]; rfl)) hassigned, rfl⟩

/-- A probe the broker accepts for a native service is one whose captures the agent plans,
at the same paths. -/
theorem capturePaths_of_created {cfg : Config} {now : ℕ} {draws : ℕ → JsString} {input : CreateProbeInput}
    {scope : ResourceScope} {s : BrokerState} {record : ServiceRecord} {probe : ProbeDefinition}
    {assignment : CaptureAssignment} (hinput : createProbeInputSchema input = some input)
    (hrecord : s.services.get? (serviceKey scope input.serviceId) = some record)
    (hbackend : record.backend = some .nativeEbpf)
    (hcreated : (s.createProbe cfg now draws input scope).2 = .ok probe) (h : Carries probe assignment) :
    ∃ paths, assignment.capturePaths = .ok paths ∧ (paths.map wire).Perm (Broker.nativeCapturePaths input) ∧
      (Broker.nativeCapturePaths input).length ≤ 8 := by
  obtain ⟨compiled, id, version, hcompiled, hgate, hprobe⟩ := createProbe_eq_ok hrecord hbackend hcreated
  obtain ⟨-, -, hcondition, htexts⟩ := definition_texts hinput hcompiled hprobe
  obtain ⟨outbound, houtbound, hbody⟩ :=
    outboundPaths_of_gate hgate (fun _ _ => metric_of_compiled hcompiled) hcondition htexts h
  obtain ⟨-, -, hcount⟩ := checkNativeBackend_eq_ok hgate
  have hperm : ((assignment.pathSet outbound).map wire).Perm (Broker.nativeCapturePaths input) := by
    rw [nativeCapturePaths_eq]
    refine (List.perm_ext_iff_of_nodup ((nodup_pathSet outbound).map wire_injective) (OrderedSet.nodup_eraseDups _)).mpr ?_
    intro path
    have hcond : (input.condition.map (·.path)).toList = (assignment.condition.map (·.path)).toList.map wire := by
      rw [← hcondition, ← h.condition]
      cases assignment.condition <;> rfl
    rw [List.mem_eraseDups, hcond, ← hbody, ← List.map_append, List.mem_map, List.mem_map]
    exact exists_congr fun p => and_congr_left' mem_pathSet
  have hlength : (assignment.pathSet outbound).length ≤ 8 := by
    rw [← List.length_map wire, hperm.length_eq]
    exact hcount
  exact ⟨_, capturePaths_of_le houtbound hlength, hperm, hcount⟩

/-- The identifier of a probe is ASCII. -/
theorem isWellFormed_probeId {id : JsString} (h : isProbeId id = true) : isWellFormed id = true := by
  simp only [isProbeId, Bool.and_eq_true, decide_eq_true_eq, List.all_eq_true] at h
  obtain ⟨⟨hhead, -⟩, htail⟩ := h
  have hprefix : (js "prb_").all (fun c => decide (c.toNat < 0x80)) = true := by decide
  rw [← List.take_append_drop 4 id, hhead]
  refine isWellFormed_ascii fun c hc => ?_
  rcases List.mem_append.mp hc with hc | hc
  · exact of_decide_eq_true (List.all_eq_true.mp hprefix c hc)
  · have hc := htail c hc
    simp only [isCrockford, isDigit, Bool.or_eq_true, Bool.and_eq_true, decide_eq_true_eq, UInt16.le_iff_toNat_le,
      ← UInt16.toNat_inj, UInt16.reduceToNat] at hc
    omega

/-- The agent reads the assignment of a created probe exactly when no text of the request that
goes into it holds a lone surrogate. -/
theorem isSome_readAssignment_created {jsep : JsString → Except JsString JsepNode} {input : CreateProbeInput}
    {compiled : CompiledInput} {id : JsString} {version : ℕ} {probe : ProbeDefinition}
    (hinput : createProbeInputSchema input = some input) (hcompiled : Broker.compileProbeInput jsep input = .ok compiled)
    (hprobe : probeDefinitionSchema (BrokerState.newDefinition compiled id version) = some probe) :
    (readAssignment probe).isSome = (assignedTexts input).all isWellFormed := by
  obtain ⟨hid, hfile, hcondition, htexts⟩ := definition_texts hinput hcompiled hprobe
  rw [isSome_readAssignment (isWellFormed_probeId hid), hfile, hcondition, assignedTexts, List.all_cons, List.all_append,
    List.all_flatMap]
  have hof : ∀ {α : Type} (p : α → Bool) (o : Option α), o.all p = o.toList.all p := fun p o => by
    cases o <;> simp
  rw [hof _ input.condition]
  -- a definition has the texts of its type alone
  rcases hbody : input.body with ⟨w, e, l, n⟩ | ⟨t, l⟩ | - | ⟨p, e⟩ <;> rw [hbody] at htexts
  · obtain ⟨_, _, _, hparsed⟩ := htexts
    rw [hparsed]
    cases w <;> simp [DefinitionBody.watchPaths, DefinitionBody.template, DefinitionBody.metricPath, Bool.and_comm]
  · obtain ⟨_, _, hparsed⟩ := htexts
    rw [hparsed]
    simp [DefinitionBody.watchPaths, DefinitionBody.template, DefinitionBody.metricPath, Bool.and_comm]
  · have hparsed : probe.body = .counter := htexts
    rw [hparsed]
    simp [DefinitionBody.watchPaths, DefinitionBody.template, DefinitionBody.metricPath]
  · obtain ⟨_, hparsed⟩ := htexts
    rw [hparsed]
    cases p <;> simp [DefinitionBody.watchPaths, DefinitionBody.template, DefinitionBody.metricPath, Bool.and_comm]

/-- The agent reads a probe the broker accepts for a native service, and captures at the
paths the broker has counted, exactly when no text of the assignment holds a lone surrogate. -/
theorem gate_agrees_iff {cfg : Config} {now : ℕ} {draws : ℕ → JsString} {input : CreateProbeInput}
    {scope : ResourceScope} {s : BrokerState} {record : ServiceRecord} {probe : ProbeDefinition}
    (hinput : createProbeInputSchema input = some input)
    (hrecord : s.services.get? (serviceKey scope input.serviceId) = some record)
    (hbackend : record.backend = some .nativeEbpf)
    (hcreated : (s.createProbe cfg now draws input scope).2 = .ok probe) :
    (Broker.nativeCapturePaths input).length ≤ 8 ∧
      ((∃ assignment paths, readAssignment probe = some assignment ∧ assignment.capturePaths = .ok paths ∧
          (paths.map wire).Perm (Broker.nativeCapturePaths input)) ↔
        ∀ text ∈ assignedTexts input, isWellFormed text = true) := by
  obtain ⟨compiled, id, version, hcompiled, hgate, hprobe⟩ := createProbe_eq_ok hrecord hbackend hcreated
  refine ⟨(checkNativeBackend_eq_ok hgate).2.2, ?_⟩
  rw [← List.all_eq_true, ← isSome_readAssignment_created hinput hcompiled hprobe, Option.isSome_iff_exists]
  constructor
  · rintro ⟨assignment, -, hread, -⟩
    exact ⟨assignment, hread⟩
  · rintro ⟨assignment, hread⟩
    obtain ⟨paths, hpaths, hperm, -⟩ := capturePaths_of_created hinput hrecord hbackend hcreated (carries_of_read hread)
    exact ⟨assignment, paths, hread, hpaths, hperm⟩

end NativeAgent

/-! ### A log with a condition -/

namespace Sample

open Broker

/-- `${user.id} of ${total}` where the total is above zero. -/
def totals : CreateProbeInput :=
  { counter 1 with
    condition := some ⟨js "total", .gt, .num 0⟩
    body := .log (js "${user.id} of ${total}") .info }

def totalsDefinition : ProbeDefinition where
  serviceId := js "api"
  sourceCommit := none
  file := js "app.js"
  line := 1
  condition := some ⟨js "total", .gt, .num 0⟩
  conditionExpression := none
  ttlSeconds := 1800
  createdBy := js "user"
  hitLimit := 10000
  body := .log (js "${user.id} of ${total}") .info none
  id := draw '1' 0
  version := 1
  runtimeLocation := none
  runtimeLine := none
  runtimeColumn := none

def nativeRecord : ServiceRecord where
  scope := scope
  serviceId := js "api"
  lastSeen := js "1970-01-01T00:00:00.000Z"
  backend := some .nativeEbpf

def nativeState : BrokerState where
  services := JsMap.empty.set (serviceKey scope (js "api")) nativeRecord

theorem totals_created :
    Protocol.createProbeInputSchema totals = some totals ∧
      nativeState.services.get? (serviceKey scope totals.serviceId) = some nativeRecord ∧
        (nativeState.createProbe config 0 (draw '1') totals scope).2 = .ok totalsDefinition := by
  decide

/-- The agent captures the user and the total, as the broker has counted. -/
theorem totals_captured :
    (nativeCapturePaths totals).length ≤ 8 ∧
      ((∃ assignment paths, NativeAgent.readAssignment totalsDefinition = some assignment ∧
          assignment.capturePaths = .ok paths ∧ (paths.map NativeAgent.wire).Perm (nativeCapturePaths totals)) ↔
        ∀ text ∈ NativeAgent.assignedTexts totals, NativeAgent.isWellFormed text = true) :=
  NativeAgent.gate_agrees_iff totals_created.1 totals_created.2.1 rfl totals_created.2.2

/-- A snapshot of a path that is half of a surrogate pair. -/
def half : CreateProbeInput := { counter 1 with body := .snapshot (some [[0xD800]]) none false 3 }

def halfDefinition : ProbeDefinition :=
  { totalsDefinition with condition := none, body := .snapshot (some [[0xD800]]) none false 3 }

/-- The broker accepts it, and the agent reads no assignment of it. -/
theorem half_unread :
    Protocol.createProbeInputSchema half = some half ∧
      nativeState.services.get? (serviceKey scope half.serviceId) = some nativeRecord ∧
        nativeRecord.backend = some .nativeEbpf ∧
          (nativeState.createProbe config 0 (draw '1') half scope).2 = .ok halfDefinition ∧
            ¬ ∃ assignment paths, NativeAgent.readAssignment halfDefinition = some assignment ∧
              assignment.capturePaths = .ok paths ∧ (paths.map NativeAgent.wire).Perm (nativeCapturePaths half) := by
  refine ⟨by decide, by decide, rfl, by decide, ?_⟩
  rintro ⟨_, _, hread, -⟩
  have hunread : (NativeAgent.readAssignment halfDefinition).isSome = false := by decide
  rw [hread] at hunread
  cases hunread

end Sample
