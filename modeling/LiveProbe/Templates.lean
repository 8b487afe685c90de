/-
LiveProbe/Templates.lean

What `compileTemplate` makes of a log template: the segments are the template
cut at its placeholders, nothing lost and nothing twice.

The cursor of the loop and the matches of the expression agree because of one
fact about `matchAll`: it finds the first placeholder of a text, leaves a text
without one before it, and goes on after it (`matchAll_cut`).
-/
import LiveProbe.Expression
import Mathlib.Data.List.Chain

open JsString

namespace Expression

/-! ### Placeholders -/

/-- `[^{}]+` -/
structure IsBody (body : JsString) : Prop where
  nonempty : body ≠ []
  inside : ∀ c ∈ body, c ≠ 0x7B ∧ c ≠ 0x7D

/-- `${body}` -/
def placeholder (body : JsString) : JsString := 0x24 :: 0x7B :: (body ++ [0x7D])

/-- A text that holds no complete placeholder. -/
def Plain (s : JsString) : Prop := ∀ body, IsBody body → ¬ placeholder body <:+: s

theorem plain_nil : Plain [] := fun body _ h => by
  rw [List.infix_nil] at h
  cases h

/-- What the expression matches at the head of a text. -/
abbrev placeholderAt : JsString → Option JsString :=
  interpolationAt (fun c => c ≠ 0x7B && c ≠ 0x7D) fun body => body ≠ []

theorem takeWhile_body {body : JsString} (h : ∀ c ∈ body, c ≠ 0x7B ∧ c ≠ 0x7D) (rest : JsString) :
    (body ++ 0x7D :: rest).takeWhile (fun c => c ≠ 0x7B && c ≠ 0x7D) = body := by
  rw [List.takeWhile_append_of_pos fun c hc => ?_, List.takeWhile_cons_of_neg (by decide), List.append_nil]
  simp only [Bool.and_eq_true, decide_eq_true_eq]
  exact h c hc

/-- An interpolation that is closed where it may end. -/
theorem interpolationAt_closed {inside : UInt16 → Bool} {ok : JsString → Bool} {r rest : JsString}
    (h : r.drop (r.takeWhile inside).length = 0x7D :: rest) :
    interpolationAt inside ok (0x24 :: 0x7B :: r) =
      if ok (r.takeWhile inside) then some (r.takeWhile inside) else none := by
  rw [interpolationAt, h]
  rfl

/-- A complete placeholder is matched where it stands. -/
theorem placeholderAt_placeholder {body : JsString} (h : IsBody body) (rest : JsString) :
    placeholderAt (placeholder body ++ rest) = some body := by
  show placeholderAt (0x24 :: 0x7B :: ((body ++ [0x7D]) ++ rest)) = some body
  rw [List.append_assoc, List.singleton_append]
  have htake := takeWhile_body h.inside rest
  have hdrop : (body ++ 0x7D :: rest).drop
      ((body ++ 0x7D :: rest).takeWhile fun c => c ≠ 0x7B && c ≠ 0x7D).length = 0x7D :: rest := by
    rw [htake, List.drop_left]
  rw [placeholderAt, interpolationAt_closed hdrop, htake]
  exact if_pos (decide_eq_true h.nonempty)

theorem placeholderAt_eq_some {s body : JsString} (h : placeholderAt s = some body) :
    IsBody body ∧ ∃ rest, s = placeholder body ++ rest := by
  unfold placeholderAt interpolationAt at h
  split at h
  · next r =>
    dsimp only at h
    split at h
    · next rest hrest =>
      simp only [decide_eq_true_eq, Option.ite_none_right_eq_some, Option.some.injEq] at h
      obtain ⟨hne, rfl⟩ := h
      refine ⟨⟨hne, fun c hc => ?_⟩, rest, ?_⟩
      · have hinside := List.mem_takeWhile_imp hc
        simpa only [Bool.and_eq_true, decide_eq_true_eq] using hinside
      · have hsplit := List.take_append_drop (r.takeWhile fun c => c ≠ 0x7B && c ≠ 0x7D).length r
        rw [hrest, ← List.prefix_iff_eq_take.mp (List.takeWhile_prefix _)] at hsplit
        show 0x24 :: 0x7B :: r = 0x24 :: 0x7B :: ((_ ++ [0x7D]) ++ rest)
        rw [List.append_assoc]
        exact congrArg (fun r => 0x24 :: 0x7B :: r) hsplit.symm
    · cases h
  · cases h

/-- Where no placeholder begins, one unit more keeps a text plain. -/
theorem Plain.cons {c : UInt16} {s : JsString} (h : Plain s) (rest : JsString)
    (hnone : placeholderAt (c :: (s ++ rest)) = none) :
    Plain (c :: s) := fun body hbody hinfix => by
  rcases List.infix_cons_iff.mp hinfix with hprefix | hinfix
  · obtain ⟨tail, htail⟩ := hprefix
    have hmatch := placeholderAt_placeholder hbody (tail ++ rest)
    rw [← List.append_assoc, htail, List.cons_append, hnone] at hmatch
    cases hmatch
  · exact h body hbody hinfix

/-! ### Matches -/

theorem matchAll_skip (inside : UInt16 → Bool) (ok : JsString → Bool) (index skip : ℕ) (s : JsString) :
    matchAll inside ok index skip s = matchAll inside ok (index + skip) 0 (s.drop skip) := by
  induction skip generalizing index s with
  | zero => rfl
  | succ skip ih =>
    cases s with
    | nil => rfl
    | cons c t =>
      rw [matchAll, ih, List.drop_succ_cons, Nat.add_assoc, Nat.add_comm 1 skip]

/-- The matches of a text from an index on. -/
abbrev matchesFrom (index : ℕ) (s : JsString) : List (ℕ × JsString) :=
  matchAll (fun c => c ≠ 0x7B && c ≠ 0x7D) (fun body => body ≠ []) index 0 s

theorem matchesFrom_some {index : ℕ} {c : UInt16} {t body rest : JsString}
    (h : placeholderAt (c :: t) = some body) (hrest : c :: t = placeholder body ++ rest) :
    matchesFrom index (c :: t) = (index, body) :: matchesFrom (index + body.length + 3) rest := by
  rw [matchesFrom, matchAll, show interpolationAt _ _ (c :: t) = some body from h]
  dsimp only
  rw [matchAll_skip]
  have htail : t = 0x7B :: (body ++ 0x7D :: rest) := by
    have := (List.cons.inj hrest).2
    rw [this]
    simp
  have hdrop : t.drop (body.length + 2) = rest := by
    rw [htail, List.drop_succ_cons, show body.length + 1 = (body ++ [0x7D]).length by simp,
      show body ++ 0x7D :: rest = (body ++ [0x7D]) ++ rest by simp, List.drop_left]
  rw [hdrop]
  congr 2
  omega

theorem matchesFrom_none {index : ℕ} {c : UInt16} {t : JsString} (h : placeholderAt (c :: t) = none) :
    matchesFrom index (c :: t) = matchesFrom (index + 1) t := by
  rw [matchesFrom, matchAll, show interpolationAt _ _ (c :: t) = none from h]

/-- The first placeholder of a text, with what stands before and after it. -/
theorem matchAll_cut (index : ℕ) (s : JsString) :
    (matchesFrom index s = [] ∧ Plain s) ∨
      ∃ before body after, s = before ++ placeholder body ++ after ∧ IsBody body ∧ Plain before ∧
        matchesFrom index s =
          (index + before.length, body) :: matchesFrom (index + before.length + body.length + 3) after := by
  induction s generalizing index with
  | nil => exact .inl ⟨rfl, plain_nil⟩
  | cons c t ih =>
    rcases hat : placeholderAt (c :: t) with - | body
    · rw [matchesFrom_none hat]
      rcases ih (index + 1) with ⟨hnone, hplain⟩ | ⟨before, body, after, rfl, hbody, hplain, hmatches⟩
      · refine .inl ⟨hnone, hplain.cons [] ?_⟩
        rw [List.append_nil]
        exact hat
      · refine .inr ⟨c :: before, body, after, rfl, hbody, hplain.cons (placeholder body ++ after) ?_, ?_⟩
        · rw [List.append_assoc] at hat
          exact hat
        · rw [hmatches, List.length_cons, Nat.add_right_comm index 1, Nat.add_assoc index before.length 1]
    · obtain ⟨hbody, rest, hrest⟩ := placeholderAt_eq_some hat
      exact .inr ⟨[], body, rest, hrest, hbody, plain_nil, matchesFrom_some hat hrest⟩

/-! ### Segments -/

/-- The template that segments stand for, with the raw texts of its placeholders
in the place of the expressions. -/
def restored : List TemplateSegment → List JsString → Option JsString
  | [], [] => some []
  | .text value :: segments, raws => (restored segments raws).map (value ++ ·)
  | .expression _ :: segments, raw :: raws => (restored segments raws).map (placeholder raw ++ ·)
  | _, _ => none

def sources : List TemplateSegment → List JsString
  | [] => []
  | .text _ :: segments => sources segments
  | .expression e :: segments => e.source :: sources segments

def isText : TemplateSegment → Bool
  | .text _ => true
  | .expression _ => false

/-- The segments are the template, cut at placeholders of these raw texts. -/
structure Lossless (template : JsString) (segments : List TemplateSegment) (raws : List JsString) : Prop where
  restored : restored segments raws = some template
  placeholders : ∀ raw ∈ raws, IsBody raw
  sources : sources segments = raws.map trim
  texts : ∀ value, .text value ∈ segments → value ≠ [] ∧ Plain value
  alternate : segments.IsChain fun left right => ¬ (isText left = true ∧ isText right = true)

theorem Lossless.nil : Lossless [] [] [] where
  restored := rfl
  placeholders _ h := absurd h List.not_mem_nil
  sources := rfl
  texts _ h := absurd h List.not_mem_nil
  alternate := List.isChain_nil

theorem Lossless.expression {template raw : JsString} {segments : List TemplateSegment} {raws : List JsString}
    (h : Lossless template segments raws) (hraw : IsBody raw) {e : CompiledExpression} (he : e.source = trim raw) :
    Lossless (placeholder raw ++ template) (.expression e :: segments) (raw :: raws) where
  restored := by
    rw [Expression.restored, h.restored]
    rfl
  placeholders raw' hmem := by
    rcases List.mem_cons.mp hmem with rfl | hmem
    · exact hraw
    · exact h.placeholders raw' hmem
  sources := by rw [Expression.sources, h.sources, he, List.map_cons]
  texts value hmem := by
    rcases List.mem_cons.mp hmem with heq | hmem
    · cases heq
    · exact h.texts value hmem
  alternate := List.isChain_cons.mpr ⟨fun _ _ hboth => (by cases hboth.1), h.alternate⟩

/-- A plain text may stand before an expression, or alone. -/
theorem Lossless.text {template value : JsString} {segments : List TemplateSegment} {raws : List JsString}
    (h : Lossless template segments raws) (hvalue : value ≠ []) (hplain : Plain value)
    (hnext : ∀ next ∈ segments.head?, isText next = false) :
    Lossless (value ++ template) (.text value :: segments) raws where
  restored := by
    rw [Expression.restored, h.restored]
    rfl
  placeholders := h.placeholders
  sources := h.sources
  texts value' hmem := by
    rcases List.mem_cons.mp hmem with heq | hmem
    · cases heq
      exact ⟨hvalue, hplain⟩
    · exact h.texts value' hmem
  alternate := by
    refine List.isChain_cons.mpr ⟨fun next hmem hboth => ?_, h.alternate⟩
    rw [hnext next hmem] at hboth
    cases hboth.2

theorem slice_append (before middle after : JsString) :
    slice (before ++ middle ++ after) before.length (before.length + middle.length) = middle := by
  rw [slice, ← List.length_append, List.take_left, List.drop_left]

section

variable {jsep : JsString → Except JsString JsepNode}

theorem compileExpression_source {source : JsString} {e : CompiledExpression}
    (h : compileExpression jsep source = .ok e) : e.source = trim source := by
  unfold compileExpression at h
  simp only [bind, Except.bind, pure, Except.pure, expressionError] at h
  split at h
  · cases h
  · split at h
    · split at h
      · cases h
      · cases h
        rfl
    · cases h

/-- The loop of `compileTemplate` from the end of what it has passed. -/
theorem templateSegments_lossless {passed s : JsString} {segments : List TemplateSegment}
    (h : templateSegments jsep (passed ++ s) passed.length (matchesFrom passed.length s) = .ok segments) :
    Lossless s segments ((matchesFrom passed.length s).map Prod.snd) := by
  induction hn : s.length using Nat.strong_induction_on generalizing passed s segments with
  | _ n ih =>
    rcases matchAll_cut passed.length s with ⟨hnone, hplain⟩ | ⟨before, body, after, rfl, hbody, hplain, hmatches⟩
    · rw [hnone] at h ⊢
      rw [templateSegments] at h
      cases h
      cases s with
      | nil =>
        rw [List.append_nil, if_neg (Nat.lt_irrefl _)]
        exact Lossless.nil
      | cons c t =>
        rw [if_pos (by simp)]
        have hslice := slice_append passed (c :: t) []
        rw [List.append_nil] at hslice
        rw [List.length_append, hslice]
        have htext := Lossless.nil.text (List.cons_ne_nil c t) hplain fun _ hmem => by cases hmem
        rw [List.append_nil] at htext
        exact htext
    · rw [hmatches] at h ⊢
      rw [templateSegments] at h
      simp only [bind, Except.bind, pure, Except.pure] at h
      split at h
      · cases h
      next e he =>
      split at h
      · cases h
      next tail htail =>
      cases h
      have hpassed : passed.length + before.length + body.length + 3 =
          (passed ++ before ++ placeholder body).length := by
        simp [placeholder]
        omega
      have hwhole : passed ++ (before ++ placeholder body ++ after) =
          (passed ++ before ++ placeholder body) ++ after := by
        simp only [List.append_assoc]
      have hshorter : after.length < n := by
        rw [← hn]
        simp [placeholder]
        omega
      rw [hpassed, hwhole] at htail
      have hrest := ih after.length hshorter htail rfl
      rw [hpassed]
      have hexpression := hrest.expression hbody (compileExpression_source he)
      rw [List.map_cons, List.append_assoc before]
      cases before with
      | nil =>
        rw [if_neg (by simp)]
        exact hexpression
      | cons c t =>
        rw [if_pos (by simp)]
        have hslice := slice_append passed (c :: t) (placeholder body ++ after)
        rw [List.append_assoc] at hslice
        rw [hslice]
        exact hexpression.text (List.cons_ne_nil c t) hplain fun next hmem => by
          cases hmem
          rfl

theorem compileTemplate_eq_some {template : JsString} {segments : List TemplateSegment}
    (h : compileTemplate jsep template = .ok (some segments)) :
    templateSegments jsep template 0 (templateMatches template) = .ok segments := by
  unfold compileTemplate at h
  dsimp only at h
  split at h
  · cases h
  · rcases hsegments : templateSegments jsep template 0 (templateMatches template) with message | found
    · rw [hsegments] at h
      cases h
    · rw [hsegments] at h
      cases h
      rfl

/-- **A template is cut, and nothing else is done to it.** -/
theorem compileTemplate_lossless {template : JsString} {segments : List TemplateSegment}
    (h : compileTemplate jsep template = .ok (some segments)) :
    Lossless template segments ((templateMatches template).map Prod.snd) :=
  @templateSegments_lossless jsep [] template segments (compileTemplate_eq_some h)

end

/-- What jsep makes of a sum; it knows no other text. -/
def jsepOfSum (source : JsString) : Except JsString JsepNode :=
  if source = js "x+1" then .ok (.binary (js "+") (.identifier (js "x")) (.literal (.num 1)))
  else .error (js "Unexpected character")

theorem lossless_sum :
    Lossless (js "n=${ x+1 }!")
      [.text (js "n="), .expression ⟨js "x+1", .binary .add (.reference [.name (js "x")]) (.literal (.num 1))⟩,
        .text (js "!")]
      ((templateMatches (js "n=${ x+1 }!")).map Prod.snd) :=
  compileTemplate_lossless (show compileTemplate jsepOfSum _ = _ by decide)

end Expression
