/-
LiveProbe/FilledBucket.lean

A bucket of tokens that is filled as time passes, over an ordered field.

The bucket holds at most `capacity` tokens, gains `rate` of them in `unit` of
time, and each attempt that finds a whole token takes it.  Two facts about the
attempts of a clock that does not go back:

* at most `capacity + rate * ((e - a) / unit)` of those from `a` to `e` are
  granted (`granted_le`): later ones live on what is filled in since the first;
* with a capacity below one, none is (`not_granted`).

A `trace` is the outcome of each attempt; it is stated for any step function, so
that the limiters of two languages can be compared with this one
(`trace_eq_of_view`).
-/
import Mathlib.Algebra.Order.Field.Basic
import Mathlib.Data.List.Count
import Mathlib.Tactic.GCongr
import Mathlib.Tactic.Linarith
import Mathlib.Tactic.Ring

namespace FilledBucket

/-! ### Traces -/

section

variable {σ τ K : Type*}

/-- The attempts at some times, with their outcomes. -/
def trace (step : K → σ → σ × Bool) : σ → List K → List (K × Bool)
  | _, [] => []
  | s, now :: times => (now, (step now s).2) :: trace step (step now s).1 times

/-- Two step functions of which one is seen through a view of the other have one trace. -/
theorem trace_eq_of_view {step : K → σ → σ × Bool} {step' : K → τ → τ × Bool} {I : σ → Prop} (view : σ → τ)
    (hstep : ∀ now s, I s → I (step now s).1 ∧ view (step now s).1 = (step' now (view s)).1 ∧
      (step now s).2 = (step' now (view s)).2) {s : σ} (hs : I s) (times : List K) :
    trace step s times = trace step' (view s) times := by
  induction times generalizing s with
  | nil => rfl
  | cons now times ih =>
    obtain ⟨hnext, hview, hgrant⟩ := hstep now s hs
    show (now, (step now s).2) :: trace step (step now s).1 times = _
    rw [ih hnext, hview, hgrant]
    rfl

theorem trace_append (step : K → σ → σ × Bool) (s : σ) (times times' : List K) :
    trace step s (times ++ times') =
      trace step s times ++ trace step (times.foldl (fun s now => (step now s).1) s) times' := by
  induction times generalizing s with
  | nil => rfl
  | cons now times ih => exact congrArg _ (ih _)

end

section

variable {K : Type*} [LinearOrder K]

/-- How many of the attempts from `a` to `e` are granted. -/
def granted (a e : K) (attempts : List (K × Bool)) : ℕ :=
  attempts.countP fun attempt => attempt.2 && decide (a ≤ attempt.1) && decide (attempt.1 ≤ e)

theorem granted_cons (a e : K) (attempt : K × Bool) (attempts : List (K × Bool)) :
    granted a e (attempt :: attempts) =
      granted a e attempts + if attempt.2 ∧ a ≤ attempt.1 ∧ attempt.1 ≤ e then 1 else 0 := by
  rw [granted, List.countP_cons]
  congr 1
  simp only [Bool.and_eq_true, decide_eq_true_eq, and_assoc]

theorem lt_of_pairwise {now e : K} {times : List K} (htimes : (now :: times).Pairwise (· ≤ ·)) (hlt : e < now) :
    ∀ t ∈ now :: times, e < t := by
  intro t ht
  rcases List.mem_cons.mp ht with rfl | ht
  · exact hlt
  · exact hlt.trans_le ((List.pairwise_cons.mp htimes).1 t ht)

end

variable {K : Type*} [Field K] [LinearOrder K]

structure Bucket (K : Type*) where
  tokens : K
  filledAt : K

/-- The tokens found at a time. -/
def Bucket.filled (capacity rate unit now : K) (b : Bucket K) : K :=
  min capacity (b.tokens + max 0 (now - b.filledAt) / unit * rate)

def Bucket.take (capacity rate unit now : K) (b : Bucket K) : Bucket K × Bool :=
  if b.filled capacity rate unit now < 1 then (⟨b.filled capacity rate unit now, now⟩, false)
  else (⟨b.filled capacity rate unit now - 1, now⟩, true)

/-- The bucket is neither overfull nor overdrawn. -/
structure Bucket.Filled (capacity : K) (b : Bucket K) : Prop where
  nonneg : 0 ≤ b.tokens
  le_capacity : b.tokens ≤ capacity

theorem granted_trace_cons (capacity rate unit a e : K) (b : Bucket K) (now : K) (times : List K) :
    granted a e (trace (Bucket.take capacity rate unit) b (now :: times)) =
      granted a e (trace (Bucket.take capacity rate unit) (b.take capacity rate unit now).1 times) +
        if (b.take capacity rate unit now).2 ∧ a ≤ now ∧ now ≤ e then 1 else 0 :=
  granted_cons a e _ _

variable {capacity rate unit now a e : K} {b : Bucket K} {times : List K}

/-! ### One attempt -/

@[simp] theorem Bucket.take_filledAt (b : Bucket K) : (b.take capacity rate unit now).1.filledAt = now := by
  rw [Bucket.take]
  split <;> rfl

/-- What an attempt grants comes out of what it finds. -/
theorem Bucket.take_tokens (b : Bucket K) :
    (b.take capacity rate unit now).1.tokens + (if (b.take capacity rate unit now).2 then 1 else 0) =
      b.filled capacity rate unit now := by
  rw [Bucket.take]
  split
  · rw [if_neg Bool.false_ne_true, add_zero]
  · rw [if_pos rfl, sub_add_cancel]

theorem Bucket.take_granted (b : Bucket K) :
    (b.take capacity rate unit now).2 = true ↔ 1 ≤ b.filled capacity rate unit now := by
  rw [Bucket.take]
  split
  · next hlt => exact ⟨nofun, fun h => absurd h hlt.not_ge⟩
  · next hge => exact ⟨fun _ => not_lt.mp hge, fun _ => rfl⟩

/-- A bucket that holds no whole token grants nothing. -/
theorem not_granted (hcapacity : capacity < 1) {attempt : K × Bool}
    (h : attempt ∈ trace (Bucket.take capacity rate unit) b times) : attempt.2 = false := by
  induction times generalizing b with
  | nil => cases h
  | cons now times ih =>
    rcases List.mem_cons.mp h with rfl | h
    · refine Bool.eq_false_iff.mpr fun hgrant => ?_
      exact (Bucket.take_granted b).mp hgrant |>.not_gt ((min_le_left _ _).trans_lt hcapacity)
    · exact ih h

/-- No attempt after `e` counts. -/
theorem granted_of_lt (h : ∀ t ∈ times, e < t) : granted a e (trace (Bucket.take capacity rate unit) b times) = 0 := by
  induction times generalizing b with
  | nil => rfl
  | cons now times ih =>
    rw [granted_trace_cons, ih fun t ht => h t (List.mem_cons_of_mem now ht), if_neg]
    exact fun hcount => (h now List.mem_cons_self).not_ge hcount.2.2

variable [IsStrictOrderedRing K]

theorem Bucket.Filled.filled_nonneg (h : b.Filled capacity) (hrate : 0 ≤ rate) (hunit : 0 < unit) :
    0 ≤ b.filled capacity rate unit now :=
  le_min (h.nonneg.trans h.le_capacity)
    (add_nonneg h.nonneg (mul_nonneg (div_nonneg (le_max_left _ _) hunit.le) hrate))

theorem Bucket.filled_le (hnow : b.filledAt ≤ now) :
    b.filled capacity rate unit now ≤ b.tokens + rate * ((now - b.filledAt) / unit) := by
  rw [Bucket.filled, max_eq_right (sub_nonneg.mpr hnow), mul_comm rate]
  exact min_le_right _ _

theorem Bucket.Filled.take (h : b.Filled capacity) (hrate : 0 ≤ rate) (hunit : 0 < unit) (now : K) :
    (b.take capacity rate unit now).1.Filled capacity := by
  have hle : b.filled capacity rate unit now ≤ capacity := min_le_left _ _
  rw [Bucket.take]
  split
  · exact ⟨h.filled_nonneg hrate hunit, hle⟩
  · next hone => exact ⟨sub_nonneg.mpr (not_lt.mp hone), (sub_le_self _ zero_le_one).trans hle⟩

/-- An attempt is granted when a token has been filled in since the last one. -/
theorem Bucket.Filled.take_granted (h : b.Filled capacity) (hcapacity : 1 ≤ capacity)
    (hnow : b.filledAt ≤ now) (hrate : 1 ≤ (now - b.filledAt) / unit * rate) :
    (b.take capacity rate unit now).2 = true := by
  rw [Bucket.take_granted, Bucket.filled, max_eq_right (sub_nonneg.mpr hnow)]
  exact le_min hcapacity (hrate.trans (le_add_of_nonneg_left h.nonneg))

/-! ### Runs of attempts -/

/-- What is granted up to `e` was in the bucket, or is filled in up to then. -/
theorem granted_le_tokens (hrate : 0 ≤ rate) (hunit : 0 < unit) (hb : b.Filled capacity)
    (htimes : (b.filledAt :: times).Pairwise (· ≤ ·)) (he : b.filledAt ≤ e) :
    (granted a e (trace (Bucket.take capacity rate unit) b times) : K) ≤
      b.tokens + rate * ((e - b.filledAt) / unit) := by
  have hsince : 0 ≤ b.tokens + rate * ((e - b.filledAt) / unit) :=
    add_nonneg hb.nonneg (mul_nonneg hrate (div_nonneg (sub_nonneg.mpr he) hunit.le))
  induction times generalizing b with
  | nil => exact Nat.cast_zero.trans_le hsince
  | cons now times ih =>
    obtain ⟨hfirst, htail⟩ := List.pairwise_cons.mp htimes
    have hnow := hfirst now List.mem_cons_self
    rcases le_or_gt now e with hle | hlt
    · have hrest := ih (hb.take hrate hunit now) (by rw [Bucket.take_filledAt]; exact htail)
        (by rw [Bucket.take_filledAt]; exact hle)
        (by rw [Bucket.take_filledAt]
            exact add_nonneg (hb.take hrate hunit now).nonneg
              (mul_nonneg hrate (div_nonneg (sub_nonneg.mpr hle) hunit.le)))
      rw [Bucket.take_filledAt] at hrest
      have hcount : ((if (b.take capacity rate unit now).2 ∧ a ≤ now ∧ now ≤ e then 1 else 0 : ℕ) : K) ≤
          if (b.take capacity rate unit now).2 then 1 else 0 := by
        split_ifs <;> simp_all
      have htokens : (b.take capacity rate unit now).1.tokens + (if (b.take capacity rate unit now).2 then 1 else 0) =
          b.filled capacity rate unit now := b.take_tokens
      have hfilled : b.filled capacity rate unit now ≤ b.tokens + rate * ((now - b.filledAt) / unit) :=
        Bucket.filled_le hnow
      rw [granted_trace_cons, Nat.cast_add]
      calc _ ≤ b.filled capacity rate unit now + rate * ((e - now) / unit) := by linarith
        _ ≤ b.tokens + rate * ((now - b.filledAt) / unit) + rate * ((e - now) / unit) := by gcongr
        _ = b.tokens + rate * ((e - b.filledAt) / unit) := by ring
    · rw [granted_of_lt (lt_of_pairwise htail hlt), Nat.cast_zero]
      exact hsince

/-- Attempts between two times are granted out of a full bucket, and what is filled in. -/
theorem granted_le (hrate : 0 ≤ rate) (hunit : 0 < unit) (hb : b.Filled capacity)
    (htimes : (b.filledAt :: times).Pairwise (· ≤ ·)) (hae : a ≤ e) :
    (granted a e (trace (Bucket.take capacity rate unit) b times) : K) ≤ capacity + rate * ((e - a) / unit) := by
  have hwithin : 0 ≤ capacity + rate * ((e - a) / unit) :=
    add_nonneg (hb.nonneg.trans hb.le_capacity) (mul_nonneg hrate (div_nonneg (sub_nonneg.mpr hae) hunit.le))
  induction times generalizing b with
  | nil => exact Nat.cast_zero.trans_le hwithin
  | cons now times ih =>
    obtain ⟨hfirst, htail⟩ := List.pairwise_cons.mp htimes
    have hfilled := hb.take hrate hunit now
    have htail' : ((b.take capacity rate unit now).1.filledAt :: times).Pairwise (· ≤ ·) := by
      rw [Bucket.take_filledAt]
      exact htail
    rw [granted_trace_cons, Nat.cast_add]
    split
    · -- the first one granted: the bucket is at most full
      next hcount =>
      obtain ⟨hgrant, ha, he⟩ := hcount
      have hrest := granted_le_tokens (a := a) (e := e) hrate hunit hfilled htail'
        (by rw [Bucket.take_filledAt]; exact he)
      have htokens : (b.take capacity rate unit now).1.tokens + (if (b.take capacity rate unit now).2 then 1 else 0) =
          b.filled capacity rate unit now := b.take_tokens
      rw [if_pos hgrant] at htokens
      have hle : b.filled capacity rate unit now ≤ capacity := min_le_left _ _
      have hspan : rate * ((e - now) / unit) ≤ rate * ((e - a) / unit) := by gcongr
      rw [Bucket.take_filledAt] at hrest
      rw [Nat.cast_one]
      linarith
    · rw [Nat.cast_zero, add_zero]
      exact ih hfilled htail'

/-- After some attempts the bucket is filled, and was last at the last of them. -/
theorem Bucket.Filled.foldl (h : b.Filled capacity) (hrate : 0 ≤ rate) (hunit : 0 < unit) (times : List K) :
    (times.foldl (fun b now => (b.take capacity rate unit now).1) b).Filled capacity := by
  induction times generalizing b with
  | nil => exact h
  | cons now times ih => exact ih (h.take hrate hunit now)

/-- The last of some attempts is granted when a token has been filled in since the one before. -/
theorem last_granted (hrate : 0 ≤ rate) (hunit : 0 < unit) (hb : b.Filled capacity) (hcapacity : 1 ≤ capacity)
    {last : K} (hlast : last ≤ now) (hgap : 1 ≤ (now - last) / unit * rate) :
    (trace (Bucket.take capacity rate unit) b (times ++ [last, now])).getLast? = some (now, true) := by
  rw [trace_append]
  have hfilled := (hb.foldl hrate hunit times).take hrate hunit last
  have hgrant := @Bucket.Filled.take_granted K _ _ capacity rate unit now _ _ hfilled hcapacity
    (by rw [Bucket.take_filledAt]; exact hlast) (by rw [Bucket.take_filledAt]; exact hgap)
  show (trace _ _ times ++ [_, (now, _)]).getLast? = _
  rw [hgrant, List.getLast?_append]
  rfl

end FilledBucket
