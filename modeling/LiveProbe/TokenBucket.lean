/-
LiveProbe/TokenBucket.lean

A bucket of tokens that is filled up as whole seconds pass.

A bucket holds at most `burst` tokens and gains `rate` of them a second.  Each
`take` first fills the bucket up to the second it is made in and then removes
one token.  Whatever the takes, at most `burst + rate * (b - a)` of them fall
in the seconds from `a` to `b` (`Takes.within`): at the first of them the
bucket is at most full, and later ones live on what is filled in since.
-/
import Mathlib.Data.List.Count
import Mathlib.Tactic.Ring

namespace TokenBucket

structure Bucket where
  second : ℕ
  tokens : ℕ
  deriving DecidableEq, Repr

variable {burst rate now a b : ℕ} {bucket bucket₀ bucket' : Bucket} {nows : List ℕ}

namespace Bucket

/-- The bucket as it is found in the second `now`. -/
def fill (burst rate now : ℕ) (bucket : Bucket) : Bucket :=
  if bucket.second < now then
    ⟨now, min (bucket.tokens + (now - bucket.second) * rate) burst⟩
  else bucket

def take (burst rate now : ℕ) (bucket : Bucket) : Option Bucket :=
  let filled := bucket.fill burst rate now
  if filled.tokens = 0 then none else some ⟨filled.second, filled.tokens - 1⟩

theorem take_eq_some (h : bucket.take burst rate now = some bucket') :
    bucket'.second = (bucket.fill burst rate now).second ∧
      bucket'.tokens + 1 = (bucket.fill burst rate now).tokens := by
  unfold take at h
  simp only [Option.ite_none_left_eq_some, Option.some.injEq] at h
  obtain ⟨hpos, rfl⟩ := h
  exact ⟨rfl, by show _ - 1 + 1 = _; omega⟩

theorem fill_second (h : bucket.second ≤ now) : (bucket.fill burst rate now).second = now := by
  unfold fill
  split
  · rfl
  · omega

theorem fill_tokens_le_burst (h : bucket.tokens ≤ burst) : (bucket.fill burst rate now).tokens ≤ burst := by
  unfold fill
  split
  · exact Nat.min_le_right _ _
  · exact h

theorem fill_tokens_le :
    (bucket.fill burst rate now).tokens ≤ bucket.tokens + rate * (now - bucket.second) := by
  unfold fill
  split
  · rw [Nat.mul_comm rate]
    exact Nat.min_le_left _ _
  · exact Nat.le_add_right _ _

end Bucket

/-- The takes made of a bucket, in seconds that do not go back. -/
inductive Takes (burst rate : ℕ) (bucket₀ : Bucket) : List ℕ → Bucket → Prop
  | start : Takes burst rate bucket₀ [] bucket₀
  | take {nows : List ℕ} {bucket bucket' : Bucket} {now : ℕ} (h : Takes burst rate bucket₀ nows bucket)
      (hnow : bucket.second ≤ now) (htake : bucket.take burst rate now = some bucket') :
      Takes burst rate bucket₀ (nows ++ [now]) bucket'

/-- The takes in the seconds from `a` to `b`. -/
def takesIn (a b : ℕ) (nows : List ℕ) : ℕ := nows.countP fun now => a ≤ now && now ≤ b

@[simp] theorem takesIn_nil : takesIn a b [] = 0 := rfl

theorem takesIn_append_singleton :
    takesIn a b (nows ++ [now]) = takesIn a b nows + if a ≤ now ∧ now ≤ b then 1 else 0 := by
  simp [takesIn, List.countP_append, List.countP_cons]

/-- From `a` on, what was taken and what is left. -/
structure Budget (burst rate : ℕ) (nows : List ℕ) (bucket : Bucket) : Prop where
  tokens : bucket.tokens ≤ burst
  past : ∀ now ∈ nows, now ≤ bucket.second
  since : ∀ a ≤ bucket.second,
    takesIn a bucket.second nows + bucket.tokens ≤ burst + rate * (bucket.second - a)
  within : ∀ a b, a ≤ b → takesIn a b nows ≤ burst + rate * (b - a)

/-- No take lies after the second of the bucket. -/
theorem takesIn_of_past (h : ∀ now ∈ nows, now ≤ b) {c : ℕ} (hc : b ≤ c) :
    takesIn a c nows = takesIn a b nows := by
  refine List.countP_congr fun now hnow => ?_
  have := h now hnow
  simp only [Bool.and_eq_true, decide_eq_true_eq]
  omega

theorem takesIn_of_past_eq_zero (h : ∀ now ∈ nows, now ≤ b) (ha : b < a) {c : ℕ} : takesIn a c nows = 0 := by
  refine List.countP_eq_zero.2 fun now hnow => ?_
  have := h now hnow
  simp only [Bool.and_eq_true, decide_eq_true_eq]
  omega

theorem Budget.take (h : Budget burst rate nows bucket) (hnow : bucket.second ≤ now)
    (htake : bucket.take burst rate now = some bucket') : Budget burst rate (nows ++ [now]) bucket' := by
  obtain ⟨hsecond, htokens⟩ := Bucket.take_eq_some htake
  rw [Bucket.fill_second hnow] at hsecond
  have hburst := @Bucket.fill_tokens_le_burst burst rate now bucket h.tokens
  have hfill := @Bucket.fill_tokens_le burst rate now bucket
  have hsince : ∀ a ≤ now, takesIn a now (nows ++ [now]) + bucket'.tokens ≤ burst + rate * (now - a) := by
    intro a ha
    rw [takesIn_append_singleton, if_pos ⟨ha, le_refl now⟩, takesIn_of_past h.past hnow]
    rcases Nat.lt_or_ge bucket.second a with hlt | hge
    · -- The first take since `a`: the bucket is at most full.
      rw [takesIn_of_past_eq_zero h.past hlt]
      omega
    · have hbudget := h.since a hge
      have hsplit : rate * (now - a) = rate * (bucket.second - a) + rate * (now - bucket.second) := by
        rw [← Nat.mul_add]
        congr 1
        omega
      omega
  refine ⟨by omega, ?_, by rw [hsecond]; exact hsince, ?_⟩
  · intro m hm
    rw [hsecond]
    rcases List.mem_append.1 hm with hm | hm
    · exact (h.past m hm).trans hnow
    · exact (List.mem_singleton.1 hm).le
  · intro a b hab
    by_cases hin : a ≤ now ∧ now ≤ b
    · have hall : ∀ m ∈ nows ++ [now], m ≤ now := by
        intro m hm
        rcases List.mem_append.1 hm with hm | hm
        · exact (h.past m hm).trans hnow
        · exact (List.mem_singleton.1 hm).le
      rw [takesIn_of_past hall hin.2]
      have hle := hsince a hin.1
      have hmono : rate * (now - a) ≤ rate * (b - a) := Nat.mul_le_mul_left _ (by omega)
      omega
    · rw [takesIn_append_singleton, if_neg hin]
      exact h.within a b hab

theorem Takes.budget (htokens : bucket₀.tokens ≤ burst) (h : Takes burst rate bucket₀ nows bucket) :
    Budget burst rate nows bucket := by
  induction h with
  | start =>
    refine ⟨htokens, ?_, ?_, ?_⟩
    · intro now hnow
      cases hnow
    · intro a _
      rw [takesIn_nil]
      omega
    · intro a b _
      exact Nat.zero_le _
  | take _ hnow htake ih => exact ih.take hnow htake

/-- At most the burst and what was filled in between. -/
theorem Takes.within (htokens : bucket₀.tokens ≤ burst) (h : Takes burst rate bucket₀ nows bucket)
    (hab : a ≤ b) : takesIn a b nows ≤ burst + rate * (b - a) :=
  (h.budget htokens).within a b hab

end TokenBucket
