/-
LiveProbe/NativeLogs.lean

The log line of the native agent, and the single pass over its template.

`render_log` replaces the placeholders of one path after another, each time in
the whole text, which holds by then what was captured for the paths before.  The
pieces of a single scan of the template (`logPieces`) are the reference: the text
is those pieces with more and more of them filled in, as long as each replacement
finds a placeholder where a piece is one and nowhere else (`OnlyAtSlots`).
-/
import LiveProbe.NativeEvent
import Mathlib.Data.List.Basic
import Mathlib.Data.List.Nodup

namespace NativeAgent

/-! ### The single pass -/

/-- `${path}` -/
def placeholder (path : String) : List Char := '$' :: '{' :: path.toList ++ ['}']

/-- A piece of a template: a character, or a placeholder whose path has a value. -/
inductive LogPiece
  | text (c : Char)
  | slot (path : String) (value : OutboundNode)

/-- The pieces of a template that is scanned from the left, after the characters of a
placeholder that are still to come. -/
def logPiecesFrom (values : List (String × OutboundNode)) : ℕ → List Char → List LogPiece
  | _, [] => []
  | n + 1, _ :: t => logPiecesFrom values n t
  | 0, c :: t =>
    match values.find? fun e => placeholder e.1 <+: c :: t with
    | some (path, value) =>
      .slot path value :: logPiecesFrom values ((placeholder path).length - 1) t
    | none => .text c :: logPiecesFrom values 0 t

def logPieces (values : List (String × OutboundNode)) (template : String) : List LogPiece :=
  logPiecesFrom values 0 template.toList

section

variable (codec : Codec)

/-- A piece where the paths in a list are filled in. -/
def LogPiece.fill (done : List String) : LogPiece → List Char
  | .text c => [c]
  | .slot path value => if path ∈ done then (renderedNode codec value).toList else placeholder path

/-- What `render_log` is for: every placeholder is filled in, all other text is the template's. -/
def singlePass (template : String) (values : List (String × OutboundNode)) : String :=
  String.ofList ((logPieces values template).flatMap fun
    | .text c => [c]
    | .slot _ value => (renderedNode codec value).toList)

/-- The characters of a piece, a placeholder of one path being kept whole. -/
def LogPiece.marks (done : List String) (path : String) : LogPiece → List (Option Char)
  | .text c => [some c]
  | .slot q value => if q = path then [none] else (LogPiece.fill codec done (.slot q value)).map some

end

/-- The characters that are marked as a placeholder. -/
def unmark (replacement : List Char) : Option Char → List Char
  | none => replacement
  | some c => [c]

/-- The placeholder of a path begins at no character that is not marked as one. -/
def OnlyAtSlots (path : String) (marks : List (Option Char)) : Prop :=
  ∀ c t, some c :: t <:+ marks → ¬ placeholder path <+: c :: t.flatMap (unmark (placeholder path))

/-- `OnlyAtSlots`, from character to character -/
def onlyAtSlots (path : String) : List (Option Char) → Bool
  | [] => true
  | none :: t => onlyAtSlots path t
  | some c :: t => !decide (placeholder path <+: c :: t.flatMap (unmark (placeholder path))) && onlyAtSlots path t

theorem onlyAtSlots_iff (path : String) (marks : List (Option Char)) :
    onlyAtSlots path marks = true ↔ OnlyAtSlots path marks := by
  induction marks with
  | nil => exact iff_of_true rfl fun c t h => nomatch List.suffix_nil.mp h
  | cons mark t ih =>
    have hrest : OnlyAtSlots path (mark :: t) ↔
        (∀ c, mark = some c → ¬ placeholder path <+: c :: t.flatMap (unmark (placeholder path))) ∧
          OnlyAtSlots path t := by
      constructor
      · intro h
        refine ⟨?_, fun c u hu => h c u (hu.trans (List.suffix_cons _ _))⟩
        rintro c rfl
        exact h c t List.suffix_rfl
      · rintro ⟨hhead, ht⟩ c u hu
        rcases List.suffix_cons_iff.mp hu with heq | hu
        · obtain ⟨rfl, rfl⟩ := List.cons.inj heq
          exact hhead c rfl
        · exact ht c u hu
    rw [hrest, ← ih]
    cases mark with
    | none => exact (and_iff_right fun c h => nomatch h).symm
    | some c =>
      rw [onlyAtSlots, Bool.and_eq_true, Bool.not_eq_true', decide_eq_false_iff_not]
      refine and_congr_left fun _ => ⟨?_, fun h => h c rfl⟩
      rintro h d hd
      obtain rfl := Option.some.inj hd
      exact h

instance (path : String) (marks : List (Option Char)) : Decidable (OnlyAtSlots path marks) :=
  decidable_of_iff _ (onlyAtSlots_iff path marks)

/-- Whichever paths are filled in already, the placeholder of the next one stands where
the template has it. -/
def Undisturbed (codec : Codec) (template : String) (values : List (String × OutboundNode)) : Prop :=
  ∀ before path value after, values = before ++ (path, value) :: after →
    OnlyAtSlots path ((logPieces values template).flatMap (LogPiece.marks codec (before.map Prod.fst) path))

/-! ### Replacing -/

theorem replaceFrom_skip (pattern replacement : List Char) (n : ℕ) (l : List Char) :
    replaceFrom pattern replacement n l = replaceFrom pattern replacement 0 (l.drop n) := by
  induction n generalizing l with
  | zero => rfl
  | succ n ih =>
    cases l with
    | nil => rfl
    | cons c t => exact ih t

/-- A pattern is replaced where the text begins with it. -/
theorem replaceFrom_append {pattern : List Char} (h : pattern ≠ []) (replacement l : List Char) :
    replaceFrom pattern replacement 0 (pattern ++ l) = replacement ++ replaceFrom pattern replacement 0 l := by
  rcases pattern with - | ⟨c, t⟩
  · exact absurd rfl h
  have hprefix : c :: t <+: c :: (t ++ l) := List.prefix_append (c :: t) l
  rw [List.cons_append, replaceFrom, if_pos hprefix, replaceFrom_skip, List.length_cons, Nat.add_sub_cancel,
    List.drop_left]

theorem replaceFrom_marks (replacement : List Char) {path : String} {marks : List (Option Char)}
    (h : OnlyAtSlots path marks) :
    replaceFrom (placeholder path) replacement 0 (marks.flatMap (unmark (placeholder path))) =
      marks.flatMap (unmark replacement) := by
  induction marks with
  | nil => rfl
  | cons mark t ih =>
    have ht : OnlyAtSlots path t := fun c u hu => h c u (hu.trans (List.suffix_cons _ _))
    rw [List.flatMap_cons, List.flatMap_cons]
    cases mark with
    | none =>
      show replaceFrom _ _ 0 (placeholder path ++ _) = replacement ++ _
      have hne : placeholder path ≠ [] := List.cons_ne_nil _ _
      rw [replaceFrom_append hne, ih ht]
    | some c =>
      show replaceFrom _ _ 0 (c :: t.flatMap _) = c :: t.flatMap _
      rw [replaceFrom, if_neg (h c t List.suffix_rfl), ih ht]

/-! ### The pieces of a template -/

section

variable {values : List (String × OutboundNode)}

/-- Nothing is lost in the pieces. -/
theorem fill_logPiecesFrom (codec : Codec) (n : ℕ) (l : List Char) :
    (logPiecesFrom values n l).flatMap (LogPiece.fill codec []) = l.drop n := by
  induction l generalizing n with
  | nil =>
    rw [List.drop_nil]
    cases n <;> rfl
  | cons c t ih =>
    cases n with
    | succ n => exact ih n
    | zero =>
      rw [logPiecesFrom]
      rcases hfind : values.find? fun e => placeholder e.1 <+: c :: t with - | ⟨path, value⟩ <;> rw [hfind]
      · show c :: (logPiecesFrom values 0 t).flatMap _ = c :: t
        rw [ih]
        rfl
      · have hfound := List.find?_some hfind
        have hprefix : placeholder path <+: c :: t := of_decide_eq_true hfound
        obtain ⟨rest, hrest⟩ := hprefix
        have ht : t = (placeholder path).tail ++ rest := (congrArg List.tail hrest).symm
        rw [List.flatMap_cons, LogPiece.fill, if_neg List.not_mem_nil, ih]
        have hlength : (placeholder path).tail.length = (placeholder path).length - 1 := List.length_tail
        rw [List.drop_zero, ← hrest, ht, ← hlength, List.drop_left]

/-- A placeholder stands for the value of its path. -/
theorem slot_mem {n : ℕ} {l : List Char} {path : String} {value : OutboundNode}
    (h : .slot path value ∈ logPiecesFrom values n l) : (path, value) ∈ values := by
  induction l generalizing n with
  | nil => cases n <;> cases h
  | cons c t ih =>
    cases n with
    | succ n => exact ih h
    | zero =>
      rw [logPiecesFrom] at h
      rcases hfind : values.find? fun e => placeholder e.1 <+: c :: t with - | ⟨q, v⟩
      · rw [hfind] at h
        rcases List.mem_cons.mp h with h | h
        · cases h
        · exact ih h
      · rw [hfind] at h
        rcases List.mem_cons.mp h with h | h
        · cases h
          exact List.mem_of_find?_eq_some hfind
        · exact ih h

/-- Filling in one path more is replacing its placeholders, where they stand. -/
theorem replace_fill (codec : Codec) {pieces : List LogPiece} {done : List String} {path : String}
    {value : OutboundNode} (hdone : path ∉ done)
    (hvalue : ∀ v, .slot path v ∈ pieces → v = value)
    (h : OnlyAtSlots path (pieces.flatMap (LogPiece.marks codec done path))) :
    replaceFrom (placeholder path) (renderedNode codec value).toList 0 (pieces.flatMap (LogPiece.fill codec done)) =
      pieces.flatMap (LogPiece.fill codec (done ++ [path])) := by
  have hsome : ∀ (r l : List Char), (l.map some).flatMap (unmark r) = l := by
    intro r l
    rw [List.flatMap_map]
    exact List.flatMap_singleton' l
  have hfill : pieces.flatMap (LogPiece.fill codec done) =
      (pieces.flatMap (LogPiece.marks codec done path)).flatMap (unmark (placeholder path)) := by
    rw [List.flatMap_assoc]
    refine List.flatMap_congr fun piece _ => ?_
    cases piece with
    | text c => rfl
    | slot q v =>
      rw [LogPiece.marks]
      split
      · next hq =>
        show (if q ∈ done then _ else placeholder q) = placeholder path ++ []
        rw [hq, if_neg hdone, List.append_nil]
      · exact (hsome _ _).symm
  rw [hfill, replaceFrom_marks _ h, List.flatMap_assoc]
  refine List.flatMap_congr fun piece hpiece => ?_
  cases piece with
  | text c => rfl
  | slot q v =>
    rw [LogPiece.marks]
    split
    · next hq =>
      subst hq
      show (renderedNode codec value).toList ++ [] = if q ∈ done ++ [q] then _ else _
      rw [if_pos (List.mem_append_right _ List.mem_cons_self), hvalue v hpiece, List.append_nil]
    · next hq =>
      rw [hsome]
      show (if q ∈ done then _ else _) = if q ∈ done ++ [path] then _ else _
      have hmem : q ∈ done ++ [path] ↔ q ∈ done := by
        rw [List.mem_append, List.mem_singleton, or_iff_left hq]
      simp only [hmem]

end

/-! ### Logs -/

section

variable {codec : Codec} {template : String} {values : List (String × OutboundNode)}

/-- The loop of `render_log`: what is left to do after some of the paths. -/
theorem foldl_replace (hkeys : (values.map Prod.fst).Nodup) (h : Undisturbed codec template values)
    (before after : List (String × OutboundNode)) (hvalues : values = before ++ after) :
    after.foldl (fun output e => replaceFrom (placeholder e.1) (renderedNode codec e.2).toList 0 output)
        ((logPieces values template).flatMap (LogPiece.fill codec (before.map Prod.fst))) =
      (logPieces values template).flatMap (LogPiece.fill codec (values.map Prod.fst)) := by
  induction after generalizing before with
  | nil => rw [List.foldl_nil, hvalues, List.append_nil]
  | cons e after ih =>
    obtain ⟨path, value⟩ := e
    have hnodup := hkeys
    rw [hvalues, List.map_append, List.map_cons] at hnodup
    have hdone : path ∉ before.map Prod.fst := by
      intro hmem
      exact (List.nodup_append.mp hnodup).2.2 path hmem path List.mem_cons_self rfl
    have hvalue : ∀ v, .slot path v ∈ logPieces values template → v = value := by
      intro v hv
      have hentry : (path, value) ∈ values := by
        rw [hvalues]
        exact List.mem_append_right _ List.mem_cons_self
      have hinj := List.inj_on_of_nodup_map hkeys (slot_mem hv) hentry rfl
      exact congrArg Prod.snd hinj
    have hstep := ih (before ++ [(path, value)]) (by rw [hvalues, List.append_assoc, List.singleton_append])
    rw [List.foldl_cons, replace_fill codec hdone hvalue (h before path value after hvalues)]
    rw [List.map_append] at hstep
    exact hstep

/-- Undisturbed, a log line is the single pass over its template. -/
theorem renderLog_singlePass (hkeys : (values.map Prod.fst).Nodup) (h : Undisturbed codec template values) :
    renderLog codec template values = singlePass codec template values := by
  have hstart : (logPieces values template).flatMap (LogPiece.fill codec []) = template.toList :=
    (fill_logPiecesFrom codec 0 _).trans List.drop_zero
  have hloop := foldl_replace hkeys h [] values rfl
  rw [List.map_nil, hstart] at hloop
  have hend : (logPieces values template).flatMap (LogPiece.fill codec (values.map Prod.fst)) =
      (logPieces values template).flatMap fun
        | .text c => [c]
        | .slot _ value => (renderedNode codec value).toList := by
    refine List.flatMap_congr fun piece hpiece => ?_
    cases piece with
    | text c => rfl
    | slot path value => exact if_pos (List.mem_map_of_mem (slot_mem hpiece))
  rw [singlePass, ← hend, ← hloop]
  rfl

end

/-- Texts of the values below. -/
def plainCodec : Codec where
  numberText z := toString z
  membersSize _ := 0
  eventSize _ := 0

/-- A name that reads as its own placeholder is let alone. -/
theorem ownName_singlePass :
    Undisturbed plainCodec "${age}: ${name}" [("age", .num 3), ("name", .str "${name}")] ∧
      renderLog plainCodec "${age}: ${name}" [("age", .num 3), ("name", .str "${name}")] =
        singlePass plainCodec "${age}: ${name}" [("age", .num 3), ("name", .str "${name}")] := by
  have hclean : Undisturbed plainCodec "${age}: ${name}" [("age", .num 3), ("name", .str "${name}")] := by
    intro before path value after h
    rcases before with - | ⟨e, - | ⟨e', before⟩⟩
    · cases h
      decide
    · cases h
      decide
    · have hnil := (List.cons.inj (List.cons.inj h).2).2
      cases before <;> cases hnil
  exact ⟨hclean, renderLog_singlePass (by decide) hclean⟩

/-- A captured text that reads as the placeholder of a later path is replaced in its turn. -/
theorem capturedPlaceholder_replaced :
    renderLog plainCodec "${a}${b}" [("a", .str "${b}"), ("b", .str "x")] = "xx" ∧
      singlePass plainCodec "${a}${b}" [("a", .str "${b}"), ("b", .str "x")] = "${b}x" := by
  decide

end NativeAgent
