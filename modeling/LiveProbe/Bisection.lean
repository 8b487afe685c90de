/-
LiveProbe/Bisection.lean

Halving refused batches under a budget of splits.

A batch is sent as a whole.  When it is refused, and it has more than one element
and a split is left, its halves are sent, the first one first; the budget is
shared by all of them.  Whoever answers may go by everything that was sent before.

`Halves` is the tree of such sends, and its `fates` say position by position what
became of the batch: that it is a partition is how they are written down.  The
theorem with content is `Halves.isolates`: one bad element in at most `2 ^ splits`
is told from all the others.
-/
import Mathlib.Data.List.Infix
import Mathlib.Data.List.Nodup
import Mathlib.Data.List.Count
import Mathlib.Tactic.Linarith

namespace Bisection

variable {ε α : Type*}

/-- What becomes of an element. -/
inductive Fate
  | delivered | rejected | deferred
  deriving DecidableEq, Repr

/-! ### The elements with a fate -/

/-- The elements with a fate, in their order. -/
def pick (fate : Fate) (batch : List ε) (fates : List Fate) : List ε :=
  ((batch.zip fates).filter fun e => e.2 = fate).map Prod.fst

/-- The parts are disjoint, make up the batch, and keep its order. -/
def Partition (batch delivered rejected deferred : List ε) : Prop :=
  ∃ fates : List Fate, fates.length = batch.length ∧ delivered = pick .delivered batch fates ∧
    rejected = pick .rejected batch fates ∧ deferred = pick .deferred batch fates

section Pick

variable {fate f : Fate} {batch batch₁ batch₂ : List ε} {fates fates₁ fates₂ : List Fate}

theorem pick_nil : pick fate ([] : List ε) [] = [] := rfl

theorem pick_cons (e : ε) :
    pick fate (e :: batch) (f :: fates) = if f = fate then e :: pick fate batch fates else pick fate batch fates := by
  by_cases h : f = fate <;> simp [pick, h]

theorem pick_append (h : fates₁.length = batch₁.length) :
    pick fate (batch₁ ++ batch₂) (fates₁ ++ fates₂) = pick fate batch₁ fates₁ ++ pick fate batch₂ fates₂ := by
  rw [pick, List.zip_append h.symm, List.filter_append, List.map_append, pick, pick]

theorem pick_replicate : pick fate batch (List.replicate batch.length f) = if f = fate then batch else [] := by
  induction batch with
  | nil => simp [pick_nil]
  | cons e batch ih =>
    rw [List.length_cons, List.replicate_succ, pick_cons, ih]
    split <;> rfl

/-- Picking commutes with forgetting part of the elements. -/
theorem pick_map {β : Type*} (g : ε → β) : pick fate (batch.map g) fates = (pick fate batch fates).map g := by
  induction batch generalizing fates with
  | nil => rfl
  | cons e batch ih =>
    rcases fates with - | ⟨f, fates⟩
    · rfl
    · rw [List.map_cons, pick_cons, pick_cons, ih]
      split <;> rfl

theorem pick_map_fates (g : ε → Fate) : pick fate batch (batch.map g) = batch.filter fun e => g e = fate := by
  induction batch with
  | nil => rfl
  | cons e batch ih =>
    rw [List.map_cons, pick_cons, List.filter_cons, ih]
    simp only [decide_eq_true_eq]

theorem mem_pick {e : ε} : e ∈ pick fate batch fates ↔ (e, fate) ∈ batch.zip fates := by
  rw [pick, List.mem_map]
  constructor
  · rintro ⟨⟨e, f⟩, he, rfl⟩
    obtain ⟨he, hf⟩ := List.mem_filter.mp he
    rw [decide_eq_true_eq] at hf
    exact hf ▸ he
  · intro he
    exact ⟨(e, fate), List.mem_filter.mpr ⟨he, decide_eq_true rfl⟩, rfl⟩

/-- A test that goes by the fates. -/
theorem filter_eq_pick (p : ε → Bool) (hlength : fates.length = batch.length)
    (h : ∀ e f, (e, f) ∈ batch.zip fates → (p e = true ↔ f = fate)) : batch.filter p = pick fate batch fates := by
  conv_lhs => rw [← List.map_fst_zip (le_of_eq hlength.symm), List.filter_map]
  rw [pick]
  congr 1
  apply List.filter_congr
  intro x hx
  rw [Function.comp_apply, Bool.eq_iff_iff, decide_eq_true_eq]
  exact h x.1 x.2 hx

/-- An element that is told from the others has one fate. -/
theorem fate_unique {κ : Type*} {key : ε → κ} (hkeys : (batch.map key).Nodup) (hlength : fates.length = batch.length)
    {e e' : ε} {f' : Fate} (he : (e, f) ∈ batch.zip fates) (he' : (e', f') ∈ batch.zip fates) (hkey : key e = key e') :
    f = f' := by
  rw [← List.map_fst_zip (le_of_eq hlength.symm), List.map_map] at hkeys
  exact congrArg Prod.snd (List.inj_on_of_nodup_map hkeys he he' hkey)

end Pick

/-! ### Sends -/

/-- What the sends of one flush share. -/
structure Flush (ε α : Type*) where
  splits : ℤ
  sent : List (List ε × α) := []

/-- Whoever answers knows what was sent before. -/
abbrev Oracle (ε α : Type*) := List (List ε × α) → List ε → α

def Flush.send (flush : Flush ε α) (oracle : Oracle ε α) (batch : List ε) : α × Flush ε α :=
  let answer := oracle flush.sent batch
  (answer, { flush with sent := flush.sent ++ [(batch, answer)] })

variable (verdict : α → Fate) (oracle : Oracle ε α)

/-- What has arrived. -/
def delivered (sent : List (List ε × α)) : List ε :=
  sent.flatMap fun e => if verdict e.2 = .delivered then e.1 else []

/-- A batch and what becomes of it. -/
inductive Halves : List ε → Flush ε α → List Fate → Flush ε α → Prop
  | whole {batch : List ε} {flush : Flush ε α}
      (h : verdict (oracle flush.sent batch) = .rejected → batch.length ≤ 1 ∨ flush.splits ≤ 0) :
      Halves batch flush (List.replicate batch.length (verdict (oracle flush.sent batch))) (flush.send oracle batch).2
  | split {batch : List ε} {flush flush₁ flush₂ : Flush ε α} {fates₁ fates₂ : List Fate}
      (refused : verdict (oracle flush.sent batch) = .rejected) (hlength : 1 < batch.length) (hsplits : 0 < flush.splits)
      (first : Halves (batch.take ((batch.length + 1) / 2))
        { (flush.send oracle batch).2 with splits := flush.splits - 1 } fates₁ flush₁)
      (second : Halves (batch.drop ((batch.length + 1) / 2)) flush₁ fates₂ flush₂) :
      Halves batch flush (fates₁ ++ fates₂) flush₂

variable {verdict oracle} {batch : List ε} {flush flush' : Flush ε α} {fates : List Fate}

/-- Something becomes of every batch: its halves are shorter. -/
theorem exists_halves (verdict : α → Fate) (oracle : Oracle ε α) (batch : List ε) (flush : Flush ε α) :
    ∃ fates flush', Halves verdict oracle batch flush fates flush' := by
  induction hn : batch.length using Nat.strong_induction_on generalizing batch flush with
  | _ n ih =>
    by_cases h : verdict (oracle flush.sent batch) = .rejected ∧ 1 < batch.length ∧ 0 < flush.splits
    · obtain ⟨refused, hlength, hsplits⟩ := h
      obtain ⟨_, flush₁, first⟩ := ih _ (by rw [List.length_take]; omega) (batch.take ((batch.length + 1) / 2))
        { (flush.send oracle batch).2 with splits := flush.splits - 1 } rfl
      obtain ⟨_, _, second⟩ := ih _ (by rw [List.length_drop]; omega) (batch.drop ((batch.length + 1) / 2)) flush₁ rfl
      exact ⟨_, _, .split refused hlength hsplits first second⟩
    · exact ⟨_, _, .whole fun refused => by have := not_and.mp h refused; omega⟩

namespace Halves

theorem length (h : Halves verdict oracle batch flush fates flush') : fates.length = batch.length := by
  induction h with
  | whole => exact List.length_replicate
  | split _ _ _ _ _ ihfirst ihsecond =>
    rw [List.length_append, ihfirst, ihsecond, ← List.length_append, List.take_append_drop]

theorem pick_split {fates₁ fates₂ : List Fate} {flush₁ : Flush ε α} {n : ℕ}
    (h : Halves verdict oracle (batch.take n) flush fates₁ flush₁) (fate : Fate) :
    pick fate batch (fates₁ ++ fates₂) = pick fate (batch.take n) fates₁ ++ pick fate (batch.drop n) fates₂ := by
  rw [← pick_append h.length, List.take_append_drop]

/-- What arrives is what the fates say. -/
theorem delivers (h : Halves verdict oracle batch flush fates flush') :
    ∃ new, flush'.sent = flush.sent ++ new ∧ delivered verdict new = pick .delivered batch fates := by
  induction h with
  | @whole batch flush =>
    refine ⟨[(batch, oracle flush.sent batch)], rfl, ?_⟩
    rw [pick_replicate, delivered, List.flatMap_singleton]
  | @split batch flush _ _ _ _ refused _ _ first _ ihfirst ihsecond =>
    obtain ⟨new₁, hsent₁, hnew₁⟩ := ihfirst
    obtain ⟨new₂, hsent₂, hnew₂⟩ := ihsecond
    refine ⟨(batch, oracle flush.sent batch) :: (new₁ ++ new₂), ?_, ?_⟩
    · rw [hsent₂, hsent₁]
      show flush.sent ++ [(batch, oracle flush.sent batch)] ++ new₁ ++ new₂ = _
      rw [List.append_assoc, List.append_assoc, List.singleton_append]
    · -- the refused send itself delivers nothing
      rw [first.pick_split, ← hnew₁, ← hnew₂, delivered, List.flatMap_cons, refused, List.flatMap_append]
      rfl

end Halves

/-! ### One bad element -/

/-- The parts of a batch that are refused are those with one element, and no send fails otherwise. -/
def RefusesOnly (verdict : α → Fate) (oracle : Oracle ε α) (bad : ε) (batch : List ε) : Prop :=
  ∀ sent part, part <:+: batch →
    (bad ∈ part → verdict (oracle sent part) = .rejected) ∧ (bad ∉ part → verdict (oracle sent part) = .delivered)

theorem RefusesOnly.part {bad : ε} {part : List ε} (h : RefusesOnly verdict oracle bad batch) (hpart : part <:+: batch) :
    RefusesOnly verdict oracle bad part :=
  fun sent part' hpart' => h sent part' (hpart'.trans hpart)

namespace Halves

variable [DecidableEq ε] {bad : ε}

/-- Without the bad element all arrive at once. -/
theorem of_clean (h : Halves verdict oracle batch flush fates flush') (hrefuses : RefusesOnly verdict oracle bad batch)
    (hbad : bad ∉ batch) :
    fates = batch.map (fun e => if e = bad then .rejected else .delivered) ∧ flush'.splits = flush.splits := by
  have hall : ∀ sent, verdict (oracle sent batch) = .delivered := fun sent => (hrefuses sent batch (List.infix_refl _)).2 hbad
  cases h with
  | whole =>
    refine ⟨?_, rfl⟩
    rw [hall, ← List.map_const']
    apply List.map_congr_left
    intro e he
    rw [if_neg (ne_of_mem_of_not_mem he hbad)]
  | split refused =>
    rw [hall] at refused
    cases refused

/-- The bad element is alone in the end: of the halves, only the one with it needs the splits that are left. -/
theorem isolates (h : Halves verdict oracle batch flush fates flush') (hrefuses : RefusesOnly verdict oracle bad batch)
    (hcount : batch.count bad ≤ 1) (hlength : batch.length ≤ 2 ^ flush.splits.toNat) :
    fates = batch.map fun e => if e = bad then .rejected else .delivered := by
  by_cases hbad : bad ∈ batch
  · induction h with
    | @whole batch flush hwhole =>
      have refused := (hrefuses flush.sent batch (List.infix_refl _)).1 hbad
      have hone : batch.length ≤ 1 := by
        rcases hwhole refused with hone | hsplits
        · exact hone
        · rwa [Int.toNat_of_nonpos hsplits, pow_zero] at hlength
      obtain ⟨e, rfl⟩ := List.length_eq_one_iff.mp (le_antisymm hone (List.length_pos_of_mem hbad))
      rw [refused, List.map_singleton, if_pos (List.mem_singleton.mp hbad).symm]
      rfl
    | @split batch flush flush₁ _ _ _ refused _ hsplits first second ihfirst ihsecond =>
      have htake := hrefuses.part (List.take_prefix ((batch.length + 1) / 2) batch).isInfix
      have hdrop := hrefuses.part (List.drop_suffix ((batch.length + 1) / 2) batch).isInfix
      -- both halves fit into what is left of the budget
      obtain ⟨k, hk⟩ := Int.eq_ofNat_of_zero_le (by omega : 0 ≤ flush.splits - 1)
      have hhalf : batch.length ≤ 2 * 2 ^ k := by
        rwa [show flush.splits.toNat = k + 1 by omega, pow_succ, mul_comm] at hlength
      rw [← List.take_append_drop ((batch.length + 1) / 2) batch, List.count_append] at hcount
      conv_rhs => rw [← List.take_append_drop ((batch.length + 1) / 2) batch]
      rw [List.map_append]
      by_cases hmem : bad ∈ batch.take ((batch.length + 1) / 2)
      · have hpos := List.count_pos_iff.mpr hmem
        have hclean : bad ∉ batch.drop ((batch.length + 1) / 2) := List.count_eq_zero.mp (by omega)
        rw [ihfirst htake (by omega) ?_ hmem, (second.of_clean hdrop hclean).1]
        show _ ≤ 2 ^ (flush.splits - 1).toNat
        rw [hk, Int.toNat_natCast, List.length_take]
        omega
      · obtain ⟨rfl, hleft⟩ := first.of_clean htake hmem
        have hmem' : bad ∈ batch.drop ((batch.length + 1) / 2) :=
          (List.mem_append.mp ((List.take_append_drop _ batch).symm ▸ hbad)).resolve_left hmem
        rw [ihsecond hdrop (by omega) ?_ hmem']
        rw [hleft]
        show _ ≤ 2 ^ (flush.splits - 1).toNat
        rw [hk, Int.toNat_natCast, List.length_drop]
        omega
  · exact (h.of_clean hrefuses hbad).1

end Halves

end Bisection
