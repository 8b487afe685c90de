/-
LiveProbe/Transition.lean

Labelled transition systems with a total step function, and versioned views of
their states.

`Reached next ok init` is the set of states reached by steps that all meet the
condition `ok`; an invariant is proved once for a step (`Reached.invariant`).

A versioned view gives each state a version and a content.  A step advances
the view when the version does not fall and, where it stays, neither does the
content change (`Advances`).  Advancing is reflexive and transitive, so a
client that holds the content of the present version holds the present
content, however many steps lie in between (`Advances.content_eq`).
-/
import Mathlib.Logic.Relation
import Mathlib.Order.Lattice.Nat

/-! ### Runs -/

section

variable {σ ι : Type*} {next : σ → ι → σ} {ok ok' : σ → ι → Prop} {init : σ}

/-- The states reached from `init` by steps that meet `ok`. -/
inductive Reached (next : σ → ι → σ) (ok : σ → ι → Prop) (init : σ) : σ → Prop
  | init : Reached next ok init init
  | step {s : σ} (a : ι) : Reached next ok init s → ok s a → Reached next ok init (next s a)

/-- What holds at the start and is kept by every step holds throughout. -/
theorem Reached.invariant {I : σ → Prop} (base : I init)
    (step : ∀ s a, I s → ok s a → I (next s a)) {s : σ} (h : Reached next ok init s) : I s := by
  induction h with
  | init => exact base
  | step a _ hok ih => exact step _ a ih hok

theorem Reached.mono (hok : ∀ s a, ok s a → ok' s a) {s : σ} (h : Reached next ok init s) :
    Reached next ok' init s := by
  induction h with
  | init => exact .init
  | step a _ ha ih => exact .step a ih (hok _ a ha)

/-- Every step of a list of labels meets the condition. -/
def AllOk (next : σ → ι → σ) (ok : σ → ι → Prop) : σ → List ι → Prop
  | _, [] => True
  | s, a :: l => ok s a ∧ AllOk next ok (next s a) l

instance AllOk.decidable [∀ s a, Decidable (ok s a)] : ∀ (s : σ) (l : List ι), Decidable (AllOk next ok s l)
  | _, [] => isTrue trivial
  | s, a :: l => @instDecidableAnd _ _ _ (AllOk.decidable (next s a) l)

/-- A condition on the labels alone is met by a list when its labels meet it. -/
theorem AllOk.of_forall {l : List ι} (h : ∀ a ∈ l, ∀ s, ok s a) (s : σ) : AllOk next ok s l := by
  induction l generalizing s with
  | nil => trivial
  | cons a l ih => exact ⟨h a List.mem_cons_self s, ih (fun b hb => h b (List.mem_cons_of_mem a hb)) _⟩

/-- What holds at the start and is kept by every step holds at the end of a list. -/
theorem AllOk.invariant {I : σ → Prop} (step : ∀ s a, I s → ok s a → I (next s a)) {l : List ι} {s : σ} (hs : I s)
    (hl : AllOk next ok s l) : I (l.foldl next s) := by
  induction l generalizing s with
  | nil => exact hs
  | cons a l ih => exact ih (step s a hs hl.1) hl.2

/-- A fold is related to its start as each of its steps is. -/
theorem foldl_rel {r : σ → σ → Prop} (refl : ∀ s, r s s) (trans : ∀ {s t u}, r s t → r t u → r s u)
    {f : σ → ι → σ} (hf : ∀ s a, r s (f s a)) (l : List ι) (s : σ) : r s (l.foldl f s) := by
  induction l generalizing s with
  | nil => exact refl s
  | cons a l ih => exact trans (hf s a) (ih (f s a))

/-- A list of steps that all lower a measure is no longer than the measure. -/
theorem AllOk.length_le {I : σ → Prop} {measure : σ → ℕ}
    (step : ∀ s a, I s → ok s a → I (next s a) ∧ measure (next s a) < measure s) {l : List ι} {s : σ} (hs : I s)
    (hl : AllOk next ok s l) : l.length + measure (l.foldl next s) ≤ measure s := by
  induction l generalizing s with
  | nil => exact (Nat.zero_add _).le
  | cons a l ih =>
    obtain ⟨hnext, hlt⟩ := step s a hs hl.1
    have hle := ih hnext hl.2
    show l.length + 1 + measure (l.foldl next (next s a)) ≤ measure s
    omega

/-- A list of labels whose steps meet the condition is a run. -/
theorem Reached.foldl {l : List ι} {s : σ} (hs : Reached next ok init s)
    (hl : AllOk next ok s l) : Reached next ok init (l.foldl next s) := by
  induction l generalizing s with
  | nil => exact hs
  | cons a l ih => exact ih (.step a hs hl.1) hl.2

end

/-! ### Versioned views -/

section

variable {σ γ : Type*} {version : σ → ℕ} {content : σ → γ} {r s t : σ}

/-- The version does not fall, and where it stays the content stays. -/
structure Advances (version : σ → ℕ) (content : σ → γ) (s t : σ) : Prop where
  le : version s ≤ version t
  content_eq : version s = version t → content s = content t

theorem Advances.refl (s : σ) : Advances version content s s := ⟨le_rfl, fun _ => rfl⟩

theorem Advances.trans (h : Advances version content r s) (h' : Advances version content s t) :
    Advances version content r t := by
  refine ⟨h.le.trans h'.le, fun he => ?_⟩
  have hrs : version r = version s := le_antisymm h.le (h'.le.trans he.ge)
  rw [h.content_eq hrs, h'.content_eq (hrs.symm.trans he)]

/-- A step that leaves both alone advances. -/
theorem Advances.of_eq (hv : version s = version t) (hc : content s = content t) :
    Advances version content s t :=
  ⟨hv.le, fun _ => hc⟩

/-- A step that raises the version advances. -/
theorem Advances.of_lt (h : version s < version t) : Advances version content s t :=
  ⟨h.le, fun he => absurd he h.ne⟩

end
