/-
LiveProbe/Outcome.lean

Agreement of two computations that may fail: both fail, each with an error of
its own, or both succeed with related values.  Agreement passes through a bind,
and two computations that agree with a third agree with each other.
-/
import Mathlib.Init

namespace Outcome

universe u

variable {ε ε' ε'' α β γ α' β' : Type u}

/-- A step of a fallible computation that succeeded. -/
theorem bind_eq_ok {x : Except ε α} {f : α → Except ε β} {b : β} :
    x >>= f = Except.ok b ↔ ∃ a, x = Except.ok a ∧ f a = Except.ok b := by
  rcases x with e | a
  · constructor
    · intro h
      cases h
    · rintro ⟨a, h, -⟩
      cases h
  · constructor
    · exact fun h => ⟨a, rfl, h⟩
    · rintro ⟨a', h, hf⟩
      cases h
      exact hf

theorem map_eq_ok {x : Except ε α} {f : α → β} {b : β} : x.map f = Except.ok b ↔ ∃ a, x = Except.ok a ∧ f a = b := by
  rcases x with e | a
  · constructor
    · intro h
      cases h
    · rintro ⟨a, h, -⟩
      cases h
  · constructor
    · intro h
      cases h
      exact ⟨a, rfl, rfl⟩
    · rintro ⟨a', h, hf⟩
      cases h
      exact congrArg Except.ok hf

section

variable {f : α → Except ε β} {l : List α} {l' : List β} {i : Nat}

/-- The results of a list are those of its elements. -/
theorem map_of_mapM (h : l.mapM f = .ok l') : l.map f = l'.map .ok := by
  induction l generalizing l' with
  | nil =>
    cases h
    rfl
  | cons a l ih =>
    rw [List.mapM_cons] at h
    obtain ⟨first, hfirst, h⟩ := bind_eq_ok.mp h
    obtain ⟨rest, hrest, h⟩ := bind_eq_ok.mp h
    cases h
    rw [List.map_cons, List.map_cons, hfirst, ih hrest]

theorem length_of_mapM (h : l.mapM f = .ok l') : l'.length = l.length := by
  rw [← List.length_map f, map_of_mapM h, List.length_map]

theorem getElem?_mapM (h : l.mapM f = .ok l') {b : β} (hb : l'[i]? = some b) :
    ∃ a, l[i]? = some a ∧ f a = .ok b := by
  have hi : (l.map f)[i]? = (l'.map .ok)[i]? := by rw [map_of_mapM h]
  rw [List.getElem?_map, List.getElem?_map, hb] at hi
  exact Option.map_eq_some_iff.mp hi

end

/-! ### Agreement -/

/-- The results agree up to the relation `R` on values. -/
inductive Agree (R : α → β → Prop) : Except ε α → Except ε' β → Prop
  | ok {a : α} {b : β} (h : R a b) : Agree R (.ok a) (.ok b)
  | error (e : ε) (e' : ε') : Agree R (.error e) (.error e')

variable {R : α → β → Prop} {S : α' → β' → Prop}

/-- Agreeing computations, continued by computations that agree on related
values, agree. -/
theorem Agree.bind {x : Except ε α} {y : Except ε' β} {f : α → Except ε α'}
    {g : β → Except ε' β'} (h : Agree R x y)
    (hf : ∀ a b, x = .ok a → y = .ok b → R a b → Agree S (f a) (g b)) :
    Agree S (x >>= f) (y >>= g) := by
  rcases h with hab | ⟨e, e'⟩
  · exact hf _ _ rfl rfl hab
  · exact .error e e'

/-- Two computations that agree with a third. -/
theorem Agree.through {T : γ → β → Prop} {U : α → γ → Prop} {x : Except ε α} {y : Except ε' β}
    {z : Except ε'' γ} (hx : Agree R x y) (hz : Agree T z y)
    (h : ∀ a b c, R a b → T c b → U a c) : Agree U x z := by
  rcases hx with hab | ⟨e, e'⟩
  · cases hz with
    | ok hcb => exact .ok (h _ _ _ hab hcb)
  · cases hz with
    | error e'' => exact .error e e''

end Outcome
