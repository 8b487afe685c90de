/-
LiveProbe/Latch.lean

A register with a timestamp guard and a latch.

A register holds the last of a sequence of stamped events.  An event that is
older than the one held is ignored, and so is an event that does not latch when
the one held does.  Whether the register ends up latched depends on the order
of arrival: it does when some event that latches is not older than any event
before it (`latched_run_iff`).  Every order leads to it exactly when some
event that latches is not older than any event that does not
(`latched_of_forall_perm`).
-/
import Mathlib.Data.List.Infix
import Mathlib.Data.List.MinMax
import Mathlib.Order.Defs.LinearOrder

namespace Latch

variable {α τ : Type*} [LinearOrder τ] (stamp : α → τ) (latches : α → Bool)

/-- An event arrives at a register. -/
def step (held : Option α) (e : α) : Option α :=
  if held.any fun p => decide (stamp e < stamp p) || (latches p && !latches e) then held else some e

/-- What the register holds after a sequence of events. -/
def run (l : List α) : Option α := l.foldl (step stamp latches) none

def Latched (held : Option α) : Prop := held.any latches = true

variable {stamp latches} {held : Option α} {e : α} {l : List α}

/-! ### Steps -/

/-- The latch holds. -/
theorem Latched.step (h : Latched latches held) (e : α) :
    Latched latches (step stamp latches held e) := by
  obtain ⟨p, rfl, hp⟩ := (Option.any_eq_true _ _).mp h
  unfold Latch.step
  split
  · exact h
  · next hnew =>
    rw [Option.any_some, Bool.or_eq_true, not_or, hp, Bool.true_and, Bool.not_eq_true',
      Bool.not_eq_false] at hnew
    exact hnew.2

/-- What is held when nothing latched is the latest event so far. -/
theorem step_of_not_latched (h : ¬ Latched latches held) (e : α) :
    step stamp latches held e = if held.any fun p => decide (stamp e < stamp p) then held else some e := by
  unfold step
  rcases held with - | p
  · rfl
  · have hp : latches p = false := Bool.eq_false_of_not_eq_true h
    simp only [Option.any_some, hp, Bool.false_and, Bool.or_false]

/-! ### Sequences -/

theorem run_append : run stamp latches (l ++ [e]) = step stamp latches (run stamp latches l) e :=
  List.foldl_append ..

/-- While nothing latched, the register holds an event not older than any other. -/
structure Holds (stamp : α → τ) (l : List α) (held : Option α) : Prop where
  mem : ∀ p, held = some p → p ∈ l
  latest : ∀ e ∈ l, ∃ p, held = some p ∧ stamp e ≤ stamp p

theorem holds_run (h : ¬ Latched latches (run stamp latches l)) :
    Holds stamp l (run stamp latches l) := by
  induction l using List.reverseRecOn with
  | nil => exact ⟨fun p hp => (nomatch hp), fun e he => (nomatch he)⟩
  | append_singleton l e ih =>
    rw [run_append] at h ⊢
    have hbefore : ¬ Latched latches (run stamp latches l) := fun hl => h (hl.step e)
    have hl := ih hbefore
    rw [step_of_not_latched hbefore]
    split
    · next hold =>
      obtain ⟨p, hp, hlt⟩ := (Option.any_eq_true _ _).mp hold
      refine ⟨fun q hq => List.mem_append_left _ (hl.mem q hq), fun e' he' => ?_⟩
      rcases List.mem_append.mp he' with he' | he'
      · exact hl.latest e' he'
      · rw [List.mem_singleton.mp he']
        exact ⟨p, hp, (of_decide_eq_true hlt).le⟩
    · next hnew =>
      refine ⟨fun q hq => ?_, fun e' he' => ⟨e, rfl, ?_⟩⟩
      · rw [← Option.some.inj hq]
        exact List.mem_append_right _ List.mem_cons_self
      · rcases List.mem_append.mp he' with he' | he'
        · obtain ⟨p, hp, hle⟩ := hl.latest e' he'
          rw [hp, Option.any_some, decide_eq_true_eq, not_lt] at hnew
          exact hle.trans hnew
        · rw [List.mem_singleton.mp he']

/-- The event that arrives last latches the register if it is not older than any before it. -/
theorem latched_append_iff :
    Latched latches (run stamp latches (l ++ [e])) ↔
      Latched latches (run stamp latches l) ∨ (latches e = true ∧ ∀ e' ∈ l, stamp e' ≤ stamp e) := by
  rw [run_append]
  by_cases hl : Latched latches (run stamp latches l)
  · exact ⟨fun _ => .inl hl, fun _ => hl.step e⟩
  · have hholds := holds_run hl
    rw [step_of_not_latched hl]
    refine Iff.trans ?_ (or_iff_right hl).symm
    split
    · next hold =>
      obtain ⟨p, hp, hlt⟩ := (Option.any_eq_true _ _).mp hold
      refine ⟨fun h => absurd h hl, fun h => ?_⟩
      exact absurd (h.2 p (hholds.mem p hp)) (not_le.mpr (of_decide_eq_true hlt))
    · next hnew =>
      refine ⟨fun h => ⟨h, fun e' he' => ?_⟩, fun h => h.1⟩
      obtain ⟨p, hp, hle⟩ := hholds.latest e' he'
      rw [hp, Option.any_some, decide_eq_true_eq, not_lt] at hnew
      exact hle.trans hnew

/-- **A register is latched when some event that latches was not older than any
event before it.** -/
theorem latched_run_iff :
    Latched latches (run stamp latches l) ↔
      ∃ pre e, pre ++ [e] <+: l ∧ latches e = true ∧ ∀ e' ∈ pre, stamp e' ≤ stamp e := by
  induction l using List.reverseRecOn with
  | nil =>
    refine ⟨fun h => (nomatch h), ?_⟩
    rintro ⟨pre, e, hpre, -⟩
    exact absurd (List.prefix_nil.mp hpre) (List.append_ne_nil_of_right_ne_nil _ (List.cons_ne_nil _ _))
  | append_singleton l e ih =>
    rw [latched_append_iff, ih]
    constructor
    · rintro (⟨pre, e', hpre, h⟩ | h)
      · exact ⟨pre, e', hpre.trans (List.prefix_append ..), h⟩
      · exact ⟨l, e, List.prefix_refl _, h⟩
    · rintro ⟨pre, e', hpre, h⟩
      rcases List.prefix_concat_iff.mp hpre with heq | hpre
      · obtain ⟨rfl, he⟩ := List.append_inj' heq rfl
        obtain rfl : e' = e := (List.cons.inj he).1
        exact .inr h
      · exact .inl ⟨pre, e', hpre, h⟩

/-! ### Orders of arrival -/

/-- The latest of the events that latch. -/
theorem exists_latest (h : ∃ e ∈ l, latches e = true) :
    ∃ e ∈ l, latches e = true ∧ ∀ e' ∈ l, latches e' = true → stamp e' ≤ stamp e := by
  obtain ⟨e, he, hlatch⟩ := h
  have hne : l.filter latches ≠ [] := List.ne_nil_of_mem (List.mem_filter.mpr ⟨he, hlatch⟩)
  obtain ⟨m, hm⟩ := Option.ne_none_iff_exists'.mp (mt (List.argmax_eq_none (f := stamp)).mp hne)
  obtain ⟨hmem, hm'⟩ := List.mem_filter.mp (List.argmax_mem hm)
  refine ⟨m, hmem, hm', fun e' he' hlatch' => ?_⟩
  exact List.le_of_mem_argmax (List.mem_filter.mpr ⟨he', hlatch'⟩) hm

/-- An event that latches and is not older than any event that does not latches
the register in every order. -/
theorem latched_of_settled
    (h : ∃ e ∈ l, latches e = true ∧ ∀ e' ∈ l, latches e' = false → stamp e' ≤ stamp e) :
    Latched latches (run stamp latches l) := by
  obtain ⟨e, he, hlatch, hnew⟩ := h
  obtain ⟨m, hm, hmlatch, hlatest⟩ :
      ∃ m ∈ l, latches m = true ∧ ∀ e' ∈ l, latches e' = true → stamp e' ≤ stamp m :=
    exists_latest ⟨e, he, hlatch⟩
  obtain ⟨pre, post, rfl⟩ := List.append_of_mem hm
  refine latched_run_iff.mpr ⟨pre, m, ⟨post, ?_⟩, hmlatch, fun e' he' => ?_⟩
  · rw [List.append_assoc, List.singleton_append]
  · have hmem : e' ∈ pre ++ m :: post := List.mem_append_left _ he'
    rcases hlatch' : latches e' with - | -
    · exact (hnew e' hmem hlatch').trans (hlatest e he hlatch)
    · exact hlatest e' hmem hlatch'

/-- Where every event that latches is older than some event that does not, an
order that brings these first does not latch the register. -/
theorem exists_perm_not_latched
    (h : ∀ e ∈ l, latches e = true → ∃ e' ∈ l, latches e' = false ∧ stamp e < stamp e') :
    ∃ l' : List α, l'.Perm l ∧ ¬ Latched latches (run stamp latches l') := by
  refine ⟨l.filter (fun e => !latches e) ++ l.filter (fun e => !!latches e),
    List.filter_append_perm (fun e : α => !latches e) l, fun hlatched => ?_⟩
  obtain ⟨pre, e, hpre, hlatch, hnew⟩ := latched_run_iff.mp hlatched
  have hmem : e ∈ l := by
    have hin := hpre.subset (List.mem_append_right pre List.mem_cons_self)
    exact (List.filter_append_perm (fun e : α => !latches e) l).subset hin
  obtain ⟨e', he', hquiet, hlt⟩ := h e hmem hlatch
  have hquiets : e' ∈ l.filter fun e => !latches e := List.mem_filter.mpr ⟨he', by rw [hquiet]; rfl⟩
  -- `e` is not among the events that do not latch, so they all came before it
  have hbefore : l.filter (fun e => !latches e) <+: pre := by
    rcases List.prefix_or_prefix_of_prefix (List.prefix_append (l.filter fun e => !latches e)
      (l.filter fun e => !!latches e)) hpre with hshort | hlong
    · rcases List.prefix_concat_iff.mp hshort with heq | hpre'
      · have hin : e ∈ l.filter fun e => !latches e := by
          rw [heq]
          exact List.mem_append_right _ List.mem_cons_self
        rw [List.mem_filter, hlatch] at hin
        exact absurd hin.2 Bool.false_ne_true
      · exact hpre'
    · have hin := hlong.subset (List.mem_append_right pre List.mem_cons_self)
      rw [List.mem_filter, hlatch] at hin
      exact absurd hin.2 Bool.false_ne_true
  exact absurd (hnew e' (hbefore.subset hquiets)) (not_le.mpr hlt)

/-- **Every order of arrival latches the register as soon as one event latches,
exactly when some event that latches is not older than any that does not.** -/
theorem latched_of_forall_perm :
    (∀ l' : List α, l'.Perm l → (Latched latches (run stamp latches l') ↔ ∃ e ∈ l, latches e = true)) ↔
      ((∃ e ∈ l, latches e = true) → ∃ e ∈ l, latches e = true ∧ ∀ e' ∈ l, latches e' = false → stamp e' ≤ stamp e) := by
  constructor
  · intro hall hsome
    by_contra hnot
    have hold : ∀ e ∈ l, latches e = true → ∃ e' ∈ l, latches e' = false ∧ stamp e < stamp e' := by
      intro e he hlatch
      by_contra hnone
      refine hnot ⟨e, he, hlatch, fun e' he' hquiet => ?_⟩
      by_contra hle
      exact hnone ⟨e', he', hquiet, not_le.mp hle⟩
    obtain ⟨l', hperm, hquiet⟩ := exists_perm_not_latched hold
    exact hquiet ((hall l' hperm).mpr hsome)
  · intro hsettled l' hperm
    constructor
    · intro hlatched
      obtain ⟨pre, e, hpre, hlatch, -⟩ := latched_run_iff.mp hlatched
      exact ⟨e, hperm.subset (hpre.subset (List.mem_append_right pre List.mem_cons_self)), hlatch⟩
    · intro hsome
      obtain ⟨e, he, hlatch, hnew⟩ := hsettled hsome
      exact latched_of_settled ⟨e, hperm.symm.subset he, hlatch,
        fun e' he' => hnew e' (hperm.subset he')⟩

end Latch
