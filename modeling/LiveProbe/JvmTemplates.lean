/-
LiveProbe/JvmTemplates.lean

Templates of dot paths in the JVM bridge, `HitProcessor.renderTemplate`, against
the pattern of the other runtimes.

The bridge looks for the next opening and then for the next closing brace, whatever
is between them.  The pattern takes one unit or more and no brace.  Both are
followed unit by unit: where no placeholder opens, either puts one more unit before
the text it goes on with (`pieces_cons`, `scan_cons`), so the two can only part at
an opening.
-/
import LiveProbe.ConditionEvaluator
import LiveProbe.NodeCapture
import LiveProbe.PythonRuntime

open JsString PythonAgent

namespace JvmBridge.HitProcessor

/-! ### The bridge -/

/-- `template.indexOf("${", cursor)`: what is before the opening, and what is after it. -/
def opening : JsString → Option (JsString × JsString)
  | [] => none
  | [_] => none
  | c :: d :: rest =>
    if c = 0x24 ∧ d = 0x7B then some ([], rest) else (opening (d :: rest)).map fun p => (c :: p.1, p.2)

theorem length_of_opening {s before inner : JsString} (h : opening s = some (before, inner)) :
    inner.length < s.length := by
  induction s using opening.induct generalizing before with
  | case1 => cases h
  | case2 => cases h
  | case3 c d rest hopens =>
    rw [opening, if_pos hopens] at h
    cases h
    simp only [List.length_cons]
    omega
  | case4 c d rest hopens ih =>
    rw [opening, if_neg hopens, Option.map_eq_some_iff] at h
    obtain ⟨⟨before', inner'⟩, hrest, hpair⟩ := h
    cases hpair
    exact (ih hrest).trans (Nat.lt_succ_self _)

/-- The units up to the next closing brace. -/
def untilClosing (inner : JsString) : JsString := inner.takeWhile fun c => c ≠ 0x7D

/-- What follows the next closing brace. -/
def afterClosing (inner : JsString) : Option JsString :=
  match inner.dropWhile fun c => c ≠ 0x7D with
  | [] => none
  | _ :: after => some after

theorem length_of_afterClosing {inner after : JsString} (h : afterClosing inner = some after) :
    after.length < inner.length := by
  unfold afterClosing at h
  split at h
  · cases h
  · next hdrop =>
    cases h
    have hle := List.length_dropWhile_le (fun c => c ≠ 0x7D) inner
    rw [hdrop, List.length_cons] at hle
    omega

section

variable (platform : ConditionEvaluator.Platform) (render : JsString → JvmValue → JsString)

/-- What is appended for a path; `render` is `SafeSerializer`'s, with the path for its keys. -/
def renderPath (captured : JvmValue) (path : JsString) : JsString :=
  match ConditionEvaluator.resolveOrMissing platform captured path with
  | some raw => render path raw
  | none => js "<missing>"

/-- The loop of `renderTemplate`, on what is left of the template. -/
def renderFrom (captured : JvmValue) (rendered template : JsString) : JsString :=
  match template with
  | [] => rendered
  | c :: t =>
    match _hopening : opening (c :: t) with
    | none => rendered ++ c :: t
    | some (before, inner) =>
      match _hclosing : afterClosing inner with
      | none => rendered ++ before ++ 0x24 :: 0x7B :: inner
      | some after =>
        renderFrom captured (rendered ++ before ++ renderPath platform render captured (untilClosing inner)) after
termination_by template.length
decreasing_by exact (length_of_afterClosing ‹_›).trans (length_of_opening ‹_›)

/-- `renderTemplate` -/
def renderTemplate (template : JsString) (captured : JvmValue) : JsString :=
  renderFrom platform render captured [] template

end

/-- The pieces that the loop goes through: texts and paths in turn, a text last. -/
def scan (template : JsString) : List Piece :=
  match _hopening : opening template with
  | none => [.text template]
  | some (before, inner) =>
    match _hclosing : afterClosing inner with
    | none => [.text template]
    | some after => .text before :: .path (untilClosing inner) :: scan after
termination_by template.length
decreasing_by exact (length_of_afterClosing ‹_›).trans (length_of_opening ‹_›)

section

variable {template before inner after : JsString}

theorem scan_none (h : opening template = none) : scan template = [.text template] := by
  rw [scan]
  split
  · rfl
  · next hopening => cases h.symm.trans hopening

theorem scan_unclosed (h : opening template = some (before, inner)) (h' : afterClosing inner = none) :
    scan template = [.text template] := by
  rw [scan]
  split
  · rfl
  · next hopening =>
    cases h.symm.trans hopening
    split
    · rfl
    · next hclosing => cases h'.symm.trans hclosing

theorem scan_closed (h : opening template = some (before, inner)) (h' : afterClosing inner = some after) :
    scan template = .text before :: .path (untilClosing inner) :: scan after := by
  rw [scan]
  split
  · next hopening => cases h.symm.trans hopening
  · next hopening =>
    cases h.symm.trans hopening
    split
    · next hclosing => cases h'.symm.trans hclosing
    · next hclosing =>
      cases h'.symm.trans hclosing
      rfl

theorem opening_eq (h : opening template = some (before, inner)) : template = before ++ 0x24 :: 0x7B :: inner := by
  induction template using opening.induct generalizing before with
  | case1 => cases h
  | case2 => cases h
  | case3 c d rest hopens =>
    rw [opening, if_pos hopens] at h
    cases h
    rw [hopens.1, hopens.2]
    rfl
  | case4 c d rest hopens ih =>
    rw [opening, if_neg hopens, Option.map_eq_some_iff] at h
    obtain ⟨⟨before', inner'⟩, hrest, hpair⟩ := h
    cases hpair
    rw [ih hrest]
    rfl

/-- What is appended for a piece. -/
def fill (path : JsString → JsString) : Piece → JsString
  | .text s => s
  | .path p => path p

/-- The pieces are filled in. -/
theorem renderFrom_eq (platform : ConditionEvaluator.Platform) (render : JsString → JvmValue → JsString)
    (captured : JvmValue) (rendered template : JsString) :
    renderFrom platform render captured rendered template =
      rendered ++ (scan template).flatMap (fill (renderPath platform render captured)) := by
  fun_induction renderFrom platform render captured rendered template with
  | case1 rendered =>
    rw [scan_none rfl]
    exact (List.append_nil rendered).symm
  | case2 rendered c t hopening =>
    rw [scan_none hopening, List.flatMap_singleton]
    rfl
  | case3 rendered c t before inner hopening hclosing =>
    rw [scan_unclosed hopening hclosing, List.flatMap_singleton, opening_eq hopening, List.append_assoc]
    rfl
  | case4 rendered c t before inner hopening after hclosing ih =>
    rw [ih, scan_closed hopening hclosing, List.flatMap_cons, List.flatMap_cons, List.append_assoc, List.append_assoc]
    rfl

theorem renderTemplate_eq (platform : ConditionEvaluator.Platform) (render : JsString → JvmValue → JsString)
    (captured : JvmValue) (template : JsString) :
    renderTemplate platform render template captured =
      (scan template).flatMap (fill (renderPath platform render captured)) := by
  rw [renderTemplate, renderFrom_eq, List.nil_append]

end

/-! ### Unit by unit -/

/-- A placeholder opens here. -/
def Opens (s : JsString) : Prop := ∃ inner, s = 0x24 :: 0x7B :: inner

/-- One more unit in front of the first text. -/
def push (c : UInt16) : List Piece → List Piece
  | .text s :: pieces => .text (c :: s) :: pieces
  | pieces => pieces

theorem push_eq_push {c : UInt16} {p q : List Piece} (hp : ∃ s l, p = .text s :: l) (hq : ∃ s l, q = .text s :: l) :
    push c p = push c q ↔ p = q := by
  obtain ⟨s, l, rfl⟩ := hp
  obtain ⟨s', l', rfl⟩ := hq
  show Piece.text (c :: s) :: l = .text (c :: s') :: l' ↔ _
  simp

theorem opening_cons {c : UInt16} {t : JsString} (h : ¬ Opens (c :: t)) :
    opening (c :: t) = (opening t).map fun p => (c :: p.1, p.2) := by
  cases t with
  | nil => rfl
  | cons d rest =>
    rw [opening, if_neg]
    rintro ⟨rfl, rfl⟩
    exact h ⟨rest, rfl⟩

theorem scan_cons {c : UInt16} {t : JsString} (h : ¬ Opens (c :: t)) : scan (c :: t) = push c (scan t) := by
  have hopening := opening_cons h
  cases hrest : opening t with
  | none =>
    rw [hrest] at hopening
    rw [scan_none hrest, scan_none hopening]
    rfl
  | some p =>
    obtain ⟨before, inner⟩ := p
    rw [hrest] at hopening
    cases hclosing : afterClosing inner with
    | none =>
      rw [scan_unclosed hrest hclosing, scan_unclosed hopening hclosing]
      rfl
    | some after =>
      rw [scan_closed hrest hclosing, scan_closed hopening hclosing]
      rfl

theorem exists_text_scan (s : JsString) : ∃ t l, scan s = .text t :: l := by
  cases hopening : opening s with
  | none => exact ⟨_, _, scan_none hopening⟩
  | some p =>
    cases hclosing : afterClosing p.2 with
    | none => exact ⟨_, _, scan_unclosed hopening hclosing⟩
    | some after => exact ⟨_, _, scan_closed hopening hclosing⟩

theorem piecesFrom_append (run : JsString) (c : UInt16) (n : ℕ) (s : JsString) :
    piecesFrom (run ++ [c]) n s = push c (piecesFrom run n s) := by
  induction s generalizing run n with
  | nil =>
    rw [piecesFrom, piecesFrom, List.reverse_append]
    rfl
  | cons d t ih =>
    cases n with
    | succ n =>
      rw [piecesFrom, piecesFrom]
      exact ih run n
    | zero =>
      rw [piecesFrom, piecesFrom]
      cases matchPath (d :: t) with
      | some path =>
        simp only [List.reverse_append]
        rfl
      | none => exact ih (d :: run) 0

theorem pieces_cons {c : UInt16} {t : JsString} (h : matchPath (c :: t) = none) : pieces (c :: t) = push c (pieces t) := by
  rw [pieces, piecesFrom, h]
  exact piecesFrom_append [] c 0 t

theorem exists_text_piecesFrom (run : JsString) (n : ℕ) (s : JsString) : ∃ t l, piecesFrom run n s = .text t :: l := by
  induction s generalizing run n with
  | nil => exact ⟨_, _, rfl⟩
  | cons d t ih =>
    cases n with
    | succ n => exact ih run n
    | zero =>
      rw [piecesFrom]
      cases matchPath (d :: t) with
      | some path => exact ⟨_, _, rfl⟩
      | none => exact ih (d :: run) 0

theorem exists_text_pieces (s : JsString) : ∃ t l, pieces s = .text t :: l := exists_text_piecesFrom [] 0 s

theorem piecesFrom_drop (run : JsString) (n : ℕ) (s : JsString) : piecesFrom run n s = piecesFrom run 0 (s.drop n) := by
  induction s generalizing n with
  | nil =>
    rw [List.drop_nil, piecesFrom, piecesFrom]
  | cons d t ih =>
    cases n with
    | zero => rfl
    | succ n => exact ih n

/-! ### At an opening -/

theorem untilClosing_append {path : JsString} (h : 0x7D ∉ path) (after : JsString) :
    untilClosing (path ++ 0x7D :: after) = path := by
  have hall : ∀ c ∈ path, decide (c ≠ 0x7D) = true := fun c hc => decide_eq_true fun heq => h (heq ▸ hc)
  rw [untilClosing, List.takeWhile_append_of_pos hall]
  exact List.append_nil path

theorem afterClosing_append {path : JsString} (h : 0x7D ∉ path) (after : JsString) :
    afterClosing (path ++ 0x7D :: after) = some after := by
  have hall : ∀ c ∈ path, decide (c ≠ 0x7D) = true := fun c hc => decide_eq_true fun heq => h (heq ▸ hc)
  rw [afterClosing, List.dropWhile_append_of_pos hall]
  rfl

theorem afterClosing_eq_none {inner : JsString} (h : 0x7D ∉ inner) : afterClosing inner = none := by
  have hall : ∀ c ∈ inner, decide (c ≠ 0x7D) = true := fun c hc => decide_eq_true fun heq => h (heq ▸ hc)
  rw [afterClosing, List.dropWhile_eq_nil_iff.mpr hall]

/-- A text has a first closing brace, or none. -/
theorem closing_cases (inner : JsString) :
    0x7D ∉ inner ∨ ∃ path after, inner = path ++ 0x7D :: after ∧ 0x7D ∉ path := by
  by_cases h : 0x7D ∈ inner
  · obtain ⟨path, after, hinner, hpath⟩ := List.eq_append_cons_of_mem h
    exact .inr ⟨path, after, hinner, hpath⟩
  · exact .inl h

theorem matchPath_of_not_opens {s : JsString} (h : ¬ Opens s) : matchPath s = none := by
  unfold matchPath
  split
  · next rest => exact absurd ⟨rest, rfl⟩ h
  · rfl

theorem matchPath_eq_some {s path : JsString} :
    matchPath s = some path ↔
      ∃ after, s = 0x24 :: 0x7B :: (path ++ 0x7D :: after) ∧ path ≠ [] ∧ 0x7B ∉ path ∧ 0x7D ∉ path := by
  constructor
  · intro h
    unfold matchPath at h
    split at h
    · next rest =>
      obtain ⟨⟨hne, hclosing⟩, hpath⟩ := Option.ite_none_right_eq_some.mp h
      have hrest := List.prefix_iff_eq_append.mp (List.takeWhile_prefix (l := rest) fun c => c ≠ 0x7B ∧ c ≠ 0x7D)
      have hbraces : ∀ c ∈ rest.takeWhile fun c => c ≠ 0x7B ∧ c ≠ 0x7D, c ≠ 0x7B ∧ c ≠ 0x7D :=
        fun c hc => by simpa using List.mem_takeWhile_imp hc
      rw [Option.some.inj hpath] at hne hclosing hrest hbraces
      obtain ⟨hlt, hget⟩ := List.getElem?_eq_some_iff.mp hclosing
      rw [List.drop_eq_getElem_cons hlt, hget] at hrest
      exact ⟨_, by rw [hrest], hne, fun hmem => (hbraces _ hmem).1 rfl, fun hmem => (hbraces _ hmem).2 rfl⟩
    · cases h
  · rintro ⟨after, rfl, hne, hopen, hclose⟩
    have hall : ∀ c ∈ path, decide (c ≠ 0x7B ∧ c ≠ 0x7D) = true := fun c hc =>
      decide_eq_true ⟨fun heq => hopen (heq ▸ hc), fun heq => hclose (heq ▸ hc)⟩
    have htake : (path ++ 0x7D :: after).takeWhile (fun c => c ≠ 0x7B ∧ c ≠ 0x7D) = path := by
      rw [List.takeWhile_append_of_pos hall]
      exact List.append_nil path
    show (if _ then _ else _) = _
    rw [htake, if_pos ⟨hne, by rw [List.getElem?_append_right le_rfl, Nat.sub_self]; rfl⟩]

/-- Wherever a placeholder opens, the text up to the next closing brace is not empty and opens no other brace. -/
def Tidy (s : JsString) : Prop :=
  ∀ path after, 0x24 :: 0x7B :: (path ++ 0x7D :: after) <:+ s → 0x7D ∉ path → path ≠ [] ∧ 0x7B ∉ path

theorem tidy_cons {c : UInt16} {t : JsString} (h : ¬ Opens (c :: t)) : Tidy (c :: t) ↔ Tidy t := by
  refine forall₂_congr fun path after => imp_congr_left ?_
  rw [List.suffix_cons_iff]
  exact or_iff_right fun heq => h ⟨_, heq.symm⟩

theorem tidy_of_no_closing {s : JsString} (h : 0x7D ∉ s) : Tidy s := by
  intro path after hsuffix
  refine absurd (hsuffix.subset ?_) h
  simp

/-- No placeholder opens inside a text without an opening brace. -/
theorem tidy_append {u after : JsString} (h : 0x7B ∉ u) : Tidy (u ++ 0x7D :: after) ↔ Tidy after := by
  induction u with
  | nil =>
    refine tidy_cons ?_
    rintro ⟨inner, heq⟩
    cases heq
  | cons c u ih =>
    refine (tidy_cons ?_).trans (ih fun hmem => h (List.mem_cons_of_mem c hmem))
    rintro ⟨inner, heq⟩
    cases u with
    | nil => cases heq
    | cons d u =>
      cases heq
      exact h (List.mem_cons_of_mem _ List.mem_cons_self)

theorem tidy_placeholder {path after : JsString} (hclose : 0x7D ∉ path) :
    Tidy (0x24 :: 0x7B :: (path ++ 0x7D :: after)) ↔ (path ≠ [] ∧ 0x7B ∉ path) ∧ Tidy after := by
  have hrest : path ≠ [] ∧ 0x7B ∉ path → (Tidy (0x7B :: (path ++ 0x7D :: after)) ↔ Tidy after) := by
    intro hpath
    refine (tidy_cons ?_).trans (tidy_append hpath.2)
    rintro ⟨inner, heq⟩
    cases heq
  constructor
  · intro h
    have hpath := h path after List.suffix_rfl hclose
    exact ⟨hpath, (hrest hpath).mp fun p a hsuffix => h p a (hsuffix.trans (List.suffix_cons _ _))⟩
  · rintro ⟨hpath, hafter⟩ p a hsuffix hp
    rcases List.suffix_cons_iff.mp hsuffix with heq | hsuffix
    · have hsame : p ++ 0x7D :: a = path ++ 0x7D :: after := (List.cons.inj (List.cons.inj heq).2).2
      have hp' := congrArg untilClosing hsame
      rw [untilClosing_append hp, untilClosing_append hclose] at hp'
      exact hp' ▸ hpath
    · exact (hrest hpath).mpr hafter p a hsuffix hp

/-! ### The two scans -/

theorem scan_placeholder {path : JsString} (hclose : 0x7D ∉ path) (after : JsString) :
    scan (0x24 :: 0x7B :: (path ++ 0x7D :: after)) = .text [] :: .path path :: scan after := by
  rw [scan_closed rfl (afterClosing_append hclose after), untilClosing_append hclose]

theorem pieces_placeholder {path : JsString} (hopen : path ≠ [] ∧ 0x7B ∉ path) (hclose : 0x7D ∉ path) (after : JsString) :
    pieces (0x24 :: 0x7B :: (path ++ 0x7D :: after)) = .text [] :: .path path :: pieces after := by
  have hmatch : matchPath (0x24 :: 0x7B :: (path ++ 0x7D :: after)) = some path :=
    matchPath_eq_some.mpr ⟨after, rfl, hopen.1, hopen.2, hclose⟩
  rw [pieces, piecesFrom, hmatch]
  simp only [List.reverse_nil]
  rw [piecesFrom_drop]
  have hdrop : (0x7B :: (path ++ 0x7D :: after)).drop (path.length + 2) = after := by
    rw [List.drop_succ_cons, List.drop_append, List.drop_eq_nil_of_le (Nat.le_succ _), List.nil_append]
    simp
  rw [hdrop]
  rfl

/-- Without a closing brace there is one text. -/
theorem pieces_of_no_closing {s : JsString} (h : 0x7D ∉ s) : pieces s = [.text s] := by
  induction s with
  | nil => rfl
  | cons c t ih =>
    rw [pieces_cons, ih fun hmem => h (List.mem_cons_of_mem c hmem)]
    · rfl
    · cases hmatch : matchPath (c :: t) with
      | none => rfl
      | some path =>
        obtain ⟨after, heq, -⟩ := matchPath_eq_some.mp hmatch
        rw [heq] at h
        simp at h

/-- The bridge finds the pieces that the pattern finds in the tidy templates, and only there. -/
theorem scan_eq_pieces_iff (s : JsString) : scan s = pieces s ↔ Tidy s := by
  induction hlength : s.length using Nat.strong_induction_on generalizing s with
  | _ n ih =>
    by_cases hopens : Opens s
    · obtain ⟨inner, rfl⟩ := hopens
      rcases closing_cases inner with hclose | ⟨path, after, rfl, hclose⟩
      · have hno : 0x7D ∉ (0x24 :: 0x7B :: inner : JsString) := by simpa using hclose
        rw [scan_unclosed rfl (afterClosing_eq_none hclose), pieces_of_no_closing hno]
        exact ⟨fun _ => tidy_of_no_closing hno, fun _ => rfl⟩
      · rw [scan_placeholder hclose, tidy_placeholder hclose]
        by_cases hpath : path ≠ [] ∧ 0x7B ∉ path
        · rw [pieces_placeholder hpath hclose, and_iff_right hpath, ← ih _ ?_ after rfl]
          · simp
          · simp only [← hlength, List.length_cons, List.length_append]
            omega
        · refine ⟨fun heq => ?_, fun htidy => absurd htidy.1 hpath⟩
          -- the pattern goes on with the text, which is no longer empty
          have hmatch : matchPath (0x24 :: 0x7B :: (path ++ 0x7D :: after)) = none := by
            cases hfound : matchPath (0x24 :: 0x7B :: (path ++ 0x7D :: after)) with
            | none => rfl
            | some other =>
              obtain ⟨after', hsame, hne, hopen, hclose'⟩ := matchPath_eq_some.mp hfound
              have hother := congrArg untilClosing (List.cons.inj (List.cons.inj hsame).2).2
              rw [untilClosing_append hclose, untilClosing_append hclose'] at hother
              exact absurd (hother ▸ ⟨hne, hopen⟩) hpath
          obtain ⟨t, l, htext⟩ := exists_text_pieces (0x7B :: (path ++ 0x7D :: after))
          rw [pieces_cons hmatch, htext] at heq
          cases heq
    · cases s with
      | nil =>
        rw [scan_none rfl]
        exact ⟨fun _ => tidy_of_no_closing List.not_mem_nil, fun _ => rfl⟩
      | cons c t =>
        rw [scan_cons hopens, pieces_cons (matchPath_of_not_opens hopens),
          push_eq_push (exists_text_scan t) (exists_text_pieces t), tidy_cons hopens]
        exact ih _ (by rw [← hlength, List.length_cons]; exact Nat.lt_succ_self _) t rfl

/-! ### The other runtimes -/

/-- The texts between the matches from a cursor on, and what the matches hold. -/
def cut (template : JsString) : ℕ → List (ℕ × JsString) → List Piece
  | cursor, [] => [.text (Expression.slice template cursor template.length)]
  | cursor, (index, body) :: rest =>
    .text (Expression.slice template cursor index) :: .path body :: cut template (index + body.length + 3) rest

theorem interpolationAt_eq_matchPath (s : JsString) :
    Expression.interpolationAt (fun c => c ≠ 0x7B && c ≠ 0x7D) (fun body => body ≠ []) s = matchPath s := by
  have hinside : (fun c : UInt16 => decide (c ≠ 0x7B) && decide (c ≠ 0x7D)) = fun c => decide (c ≠ 0x7B ∧ c ≠ 0x7D) := by
    funext c
    exact (Bool.decide_and _ _).symm
  by_cases hopens : Opens s
  · obtain ⟨rest, rfl⟩ := hopens
    simp only [Expression.interpolationAt, matchPath, hinside]
    generalize rest.takeWhile (fun c => decide (c ≠ 0x7B ∧ c ≠ 0x7D)) = body
    rw [← List.head?_drop]
    cases rest.drop body.length with
    | nil => simp
    | cons c after =>
      by_cases hc : c = 0x7D
      · subst hc
        simp
      · split
        · next heq => exact absurd (List.cons.inj heq).1 hc
        · rw [if_neg fun hboth => hc (Option.some.inj hboth.2)]
  · rw [matchPath_of_not_opens hopens]
    unfold Expression.interpolationAt
    split
    · next rest => exact absurd ⟨rest, rfl⟩ hopens
    · rfl

theorem matchAll_drop (inside : UInt16 → Bool) (ok : JsString → Bool) (index skip : ℕ) (s : JsString) :
    Expression.matchAll inside ok index skip s = Expression.matchAll inside ok (index + skip) 0 (s.drop skip) := by
  induction s generalizing index skip with
  | nil => rw [List.drop_nil, Expression.matchAll, Expression.matchAll]
  | cons c t ih =>
    cases skip with
    | zero => rfl
    | succ skip =>
      rw [Expression.matchAll, ih, Nat.add_right_comm, Nat.add_assoc]
      rfl

/-- The matches of the pattern in what is left of a template at a position. -/
def matchesAt (index : ℕ) (s : JsString) : List (ℕ × JsString) :=
  Expression.matchAll (fun c => c ≠ 0x7B && c ≠ 0x7D) (fun body => body ≠ []) index 0 s

theorem matchesAt_cons (index : ℕ) (c : UInt16) (t : JsString) :
    matchesAt index (c :: t) =
      match matchPath (c :: t) with
      | some body => (index, body) :: matchesAt (index + body.length + 3) (t.drop (body.length + 2))
      | none => matchesAt (index + 1) t := by
  rw [matchesAt, Expression.matchAll, interpolationAt_eq_matchPath]
  cases matchPath (c :: t) with
  | none => rfl
  | some body =>
    simp only [matchAll_drop _ _ (index + 1)]
    rw [show index + 1 + (body.length + 2) = index + body.length + 3 by omega]
    rfl

theorem slice_succ {template t : JsString} {c : UInt16} {cursor index : ℕ} (hle : cursor ≤ index)
    (hdrop : template.drop index = c :: t) :
    Expression.slice template cursor (index + 1) = Expression.slice template cursor index ++ [c] := by
  have hlt : index < template.length := by
    have hlength := congrArg List.length hdrop
    rw [List.length_drop, List.length_cons] at hlength
    omega
  have hget : template[index] = c := by
    rw [List.drop_eq_getElem_cons hlt] at hdrop
    exact (List.cons.inj hdrop).1
  rw [Expression.slice, Expression.slice, List.take_succ_eq_append_getElem hlt, hget, List.drop_append_of_le_length]
  rw [List.length_take]
  omega

theorem piecesFrom_eq_cut {template s : JsString} {cursor index : ℕ} (hle : cursor ≤ index)
    (hdrop : template.drop index = s) (hindex : index ≤ template.length) :
    piecesFrom (Expression.slice template cursor index).reverse 0 s = cut template cursor (matchesAt index s) := by
  induction hlength : s.length using Nat.strong_induction_on generalizing s cursor index with
  | _ n ih =>
    cases s with
    | nil =>
      have hend : index = template.length := by
        have hnil := List.drop_eq_nil_iff.mp hdrop
        omega
      rw [piecesFrom, List.reverse_reverse, hend]
      rfl
    | cons c t =>
      have hlt : index + t.length + 1 = template.length := by
        have hdrop' := congrArg List.length hdrop
        rw [List.length_drop, List.length_cons] at hdrop'
        omega
      have htail : template.drop (index + 1) = t := by
        rw [← List.drop_drop, hdrop]
        rfl
      rw [List.length_cons] at hlength
      rw [piecesFrom, matchesAt_cons]
      cases hmatch : matchPath (c :: t) with
      | none =>
        have hrun : c :: (Expression.slice template cursor index).reverse =
            (Expression.slice template cursor (index + 1)).reverse := by
          rw [slice_succ hle hdrop, List.reverse_append]
          rfl
        simp only [hrun]
        exact ih t.length (by omega) (by omega) htail (by omega) rfl
      | some body =>
        obtain ⟨after, heq, -⟩ := matchPath_eq_some.mp hmatch
        have hbody : body.length + 2 ≤ t.length := by
          have hcons := congrArg List.length heq
          simp only [List.length_cons, List.length_append] at hcons
          omega
        have hself : (Expression.slice template (index + body.length + 3) (index + body.length + 3)).reverse = [] := by
          rw [List.reverse_eq_nil_iff, Expression.slice]
          refine List.drop_eq_nil_of_le ?_
          rw [List.length_take]
          exact Nat.min_le_left _ _
        simp only [List.reverse_reverse]
        rw [cut, piecesFrom_drop, ← hself]
        refine congrArg _ (congrArg _ (ih (t.drop (body.length + 2)).length ?_ le_rfl ?_ (by omega) rfl))
        · rw [List.length_drop]
          omega
        · rw [show index + body.length + 3 = index + 1 + (body.length + 2) by omega, ← List.drop_drop, htail]

/-- The pieces of the Python agent are those of the Node agent and of the broker. -/
theorem pieces_eq_cut (template : JsString) : pieces template = cut template 0 (Expression.templateMatches template) :=
  piecesFrom_eq_cut (Nat.le_refl 0) rfl (Nat.zero_le _)

/-- The bridge cuts a template where the pattern does exactly when the template is tidy. -/
theorem scan_agrees_iff (template : JsString) :
    (scan template = pieces template ∧ scan template = cut template 0 (Expression.templateMatches template)) ↔
      Tidy template := by
  rw [← pieces_eq_cut, and_self_iff]
  exact scan_eq_pieces_iff template

namespace Sample

/-- A placeholder in the path of another. -/
def nested : JsString := js "$\x7buser.$\x7bname\x7d\x7d"

theorem scan_nested : scan nested = [.text [], .path (js "user.$\x7bname"), .text (js "\x7d")] := by
  have hscan := @scan_closed nested [] (js "user.$\x7bname\x7d\x7d") (js "\x7d") rfl rfl
  rw [@scan_none (js "\x7d") rfl] at hscan
  exact hscan

/-- The bridge takes the inner placeholder for a part of the outer path. -/
theorem nested_placeholder : ¬ ∀ template, scan template = pieces template ∧
    scan template = cut template 0 (Expression.templateMatches template) := by
  intro h
  have hnested := scan_nested.symm.trans (h nested).1
  revert hnested
  decide

end Sample

end JvmBridge.HitProcessor
