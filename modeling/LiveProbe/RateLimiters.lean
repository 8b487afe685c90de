/-
LiveProbe/RateLimiters.lean

The hit limiters of the Node and the Python agent: `rate-limiter.ts`, the class
`TokenBucket` of `runtime.py`, and the configured rate, over the rationals.

Both are the same filled bucket, the one with a clock of milliseconds.  Its
capacity is the rate, so that a rate below one per second never makes a whole
token: the bounds hold at every rate, but only from one per second on is an
attempt that has waited long enough granted (`limiters_fair_iff`).
-/
import LiveProbe.FilledBucket
import LiveProbe.Outcome
import Mathlib.Algebra.Order.Field.Rat
import Mathlib.Tactic.FieldSimp
import Mathlib.Tactic.NormNum

open FilledBucket (trace granted Bucket)

namespace NodeAgent

/-! ### The Node agent -/

def positiveNumber (value : Option ℚ) (fallback : ℚ) (name : String) : Except String ℚ :=
  let resolved := value.getD fallback
  if resolved ≤ 0 then .error (name ++ " must be positive and finite") else .ok resolved

def aliasedNumber (canonical legacy environmentValue : Option ℚ) (fallback : ℚ)
    (canonicalName legacyName : String) : Except String ℚ :=
  if canonical.isSome ∧ legacy.isSome ∧ canonical ≠ legacy then
    .error (canonicalName ++ " conflicts with legacy " ++ legacyName)
  else .ok ((canonical <|> legacy <|> environmentValue).getD fallback)

/-- The `hitsPerSec` of `resolveLimits`. -/
def resolveHitsPerSec (maxProbeHitsPerSecond hitsPerSec environmentValue : Option ℚ) : Except String ℚ := do
  let rate ← aliasedNumber maxProbeHitsPerSecond hitsPerSec environmentValue 10 "maxProbeHitsPerSecond" "hitsPerSec"
  positiveNumber (some rate) 10 "maxProbeHitsPerSecond"

/-- `TokenBucket`; the clock is in milliseconds. -/
structure TokenBucket where
  ratePerSecond : ℚ
  capacity : ℚ
  tokens : ℚ
  lastRefill : ℚ

namespace TokenBucket

def new (ratePerSecond now : ℚ) : Except String TokenBucket :=
  if ratePerSecond ≤ 0 then .error "ratePerSecond must be positive and finite"
  else .ok ⟨ratePerSecond, ratePerSecond, ratePerSecond, now⟩

def tryTake (now : ℚ) (b : TokenBucket) : TokenBucket × Bool :=
  let elapsedSeconds := max 0 (now - b.lastRefill) / 1000
  let tokens := min b.capacity (b.tokens + elapsedSeconds * b.ratePerSecond)
  if tokens < 1 then ({ b with tokens := tokens, lastRefill := now }, false)
  else ({ b with tokens := tokens - 1, lastRefill := now }, true)

/-- The limiter as a bucket. -/
def view (b : TokenBucket) : Bucket ℚ := ⟨b.tokens, b.lastRefill⟩

theorem tryTake_eq (now : ℚ) (b : TokenBucket) :
    b.tryTake now =
      ({ b with
          tokens := (b.view.take b.capacity b.ratePerSecond 1000 now).1.tokens
          lastRefill := (b.view.take b.capacity b.ratePerSecond 1000 now).1.filledAt },
        (b.view.take b.capacity b.ratePerSecond 1000 now).2) := by
  show (if b.view.filled b.capacity b.ratePerSecond 1000 now < 1 then _ else _) = _
  rw [Bucket.take]
  split <;> rfl

/-- The limiter is a filled bucket of milliseconds. -/
theorem trace_tryTake (b : TokenBucket) (times : List ℚ) :
    trace tryTake b times = trace (Bucket.take b.capacity b.ratePerSecond 1000) b.view times := by
  refine FilledBucket.trace_eq_of_view (I := fun s => s.capacity = b.capacity ∧ s.ratePerSecond = b.ratePerSecond)
    view (fun now s hs => ?_) ⟨rfl, rfl⟩ times
  rw [tryTake_eq, ← hs.1, ← hs.2]
  exact ⟨⟨rfl, rfl⟩, rfl, rfl⟩

end TokenBucket

end NodeAgent

namespace PythonAgent

/-! ### The Python agent -/

/-- `TokenBucket`; the clock is in seconds. -/
structure TokenBucket where
  rate : ℚ
  capacity : ℚ
  tokens : ℚ
  updated_at : ℚ

namespace TokenBucket

def new (rate : ℚ) (capacity : Option ℚ) (now : ℚ) : TokenBucket where
  rate := max 0 rate
  capacity := max 0 (capacity.getD rate)
  tokens := max 0 (capacity.getD rate)
  updated_at := now

def consume (amount now : ℚ) (b : TokenBucket) : TokenBucket × Bool :=
  let elapsed := max 0 (now - b.updated_at)
  let tokens := min b.capacity (b.tokens + elapsed * b.rate)
  if tokens < amount then ({ b with tokens := tokens, updated_at := now }, false)
  else ({ b with tokens := tokens - amount, updated_at := now }, true)

def view (b : TokenBucket) : Bucket ℚ := ⟨b.tokens, b.updated_at⟩

theorem consume_eq (now : ℚ) (b : TokenBucket) :
    b.consume 1 now =
      ({ b with
          tokens := (b.view.take b.capacity b.rate 1 now).1.tokens
          updated_at := (b.view.take b.capacity b.rate 1 now).1.filledAt },
        (b.view.take b.capacity b.rate 1 now).2) := by
  have hfilled : min b.capacity (b.tokens + max 0 (now - b.updated_at) * b.rate) =
      b.view.filled b.capacity b.rate 1 now := by
    rw [Bucket.filled, div_one]
    rfl
  show (if min b.capacity (b.tokens + max 0 (now - b.updated_at) * b.rate) < 1 then
    ({ b with tokens := min b.capacity (b.tokens + max 0 (now - b.updated_at) * b.rate), updated_at := now }, false)
    else ({ b with
      tokens := min b.capacity (b.tokens + max 0 (now - b.updated_at) * b.rate) - 1, updated_at := now }, true)) = _
  rw [hfilled, Bucket.take]
  split <;> rfl

/-- The limiter is a filled bucket of seconds. -/
theorem trace_consume (b : TokenBucket) (times : List ℚ) :
    trace (consume 1) b times = trace (Bucket.take b.capacity b.rate 1) b.view times := by
  refine FilledBucket.trace_eq_of_view (I := fun s => s.capacity = b.capacity ∧ s.rate = b.rate)
    view (fun now s hs => ?_) ⟨rfl, rfl⟩ times
  rw [consume_eq, ← hs.1, ← hs.2]
  exact ⟨⟨rfl, rfl⟩, rfl, rfl⟩

end TokenBucket

end PythonAgent

/-! ### Fairness -/

/-- A limiter that is made at `start`, with `unit` of its clock to the second: it grants what the rate
allows, and an attempt that has waited long enough is granted. -/
structure Fair (trace : List ℚ → List (ℚ × Bool)) (start unit rate : ℚ) : Prop where
  sound : ∀ times : List ℚ, (start :: times).Pairwise (· ≤ ·) → ∀ a e : ℚ, a ≤ e →
    (granted a e (trace times) : ℚ) ≤ rate * ((e - a) / unit) + max rate 1
  live : ∀ (times : List ℚ) (prev now : ℚ), (start :: (times ++ [prev, now])).Pairwise (· ≤ ·) →
    max 1 (1 / rate) ≤ (now - prev) / unit → (trace (times ++ [prev, now])).getLast? = some (now, true)

variable {start unit rate : ℚ}

theorem new_filled (hrate : 0 ≤ rate) (start : ℚ) : Bucket.Filled rate ⟨rate, start⟩ := ⟨hrate, le_rfl⟩

/-- The bound holds at every rate. -/
theorem take_sound (hrate : 0 < rate) (hunit : 0 < unit) {times : List ℚ}
    (htimes : (start :: times).Pairwise (· ≤ ·)) {a e : ℚ} (hae : a ≤ e) :
    (granted a e (trace (Bucket.take rate rate unit) ⟨rate, start⟩ times) : ℚ) ≤
      rate * ((e - a) / unit) + max rate 1 :=
  calc (granted a e (trace (Bucket.take rate rate unit) ⟨rate, start⟩ times) : ℚ)
      ≤ rate + rate * ((e - a) / unit) :=
        FilledBucket.granted_le hrate.le hunit (new_filled hrate.le start) htimes hae
    _ ≤ rate * ((e - a) / unit) + max rate 1 := by
        rw [add_comm]
        gcongr
        exact le_max_left _ _

/-- Below one per second, nothing is ever granted. -/
theorem take_silent (hlt : rate < 1) {times : List ℚ} {attempt : ℚ × Bool}
    (h : attempt ∈ trace (Bucket.take rate rate unit) ⟨rate, start⟩ times) : attempt.2 = false :=
  FilledBucket.not_granted hlt h

theorem take_live (hrate : 1 ≤ rate) (hunit : 0 < unit) {times : List ℚ} {prev now : ℚ}
    (htimes : (start :: (times ++ [prev, now])).Pairwise (· ≤ ·)) (hgap : max 1 (1 / rate) ≤ (now - prev) / unit) :
    (trace (Bucket.take rate rate unit) ⟨rate, start⟩ (times ++ [prev, now])).getLast? = some (now, true) := by
  have hpos : 0 < rate := zero_lt_one.trans_le hrate
  have hlast : prev ≤ now := by
    have htail := (List.pairwise_append.mp (List.pairwise_cons.mp htimes).2).2.1
    exact (List.pairwise_cons.mp htail).1 now (List.mem_singleton_self now)
  refine FilledBucket.last_granted hpos.le hunit (new_filled hpos.le start) hrate hlast ?_
  have hle : 1 / rate ≤ (now - prev) / unit := (le_max_right 1 (1 / rate)).trans hgap
  calc (1 : ℚ) = 1 / rate * rate := by field_simp
    _ ≤ (now - prev) / unit * rate := by gcongr

theorem take_fair_iff (hrate : 0 < rate) (hunit : 0 < unit) :
    Fair (trace (Bucket.take rate rate unit) ⟨rate, start⟩) start unit rate ↔ 1 ≤ rate := by
  refine ⟨fun hfair => ?_, fun hone => ⟨fun times htimes a e hae => take_sound hrate hunit htimes hae,
    fun times prev now htimes hgap => take_live hone hunit htimes hgap⟩⟩
  by_contra hlt
  -- the clock stands still until the first attempt, and the second has waited long enough
  have hwait : 0 ≤ max 1 (1 / rate) * unit := by positivity
  have hgap : (start + max 1 (1 / rate) * unit - start) / unit = max 1 (1 / rate) := by
    rw [add_sub_cancel_left, mul_div_cancel_right₀ _ hunit.ne']
  have htimes : (start :: ([] ++ [start, start + max 1 (1 / rate) * unit])).Pairwise (· ≤ ·) := by
    simpa using hwait
  have hlast := hfair.live [] start (start + max 1 (1 / rate) * unit) htimes hgap.ge
  exact absurd (take_silent (not_le.mp hlt) (List.mem_of_getLast? hlast)) nofun

/-- The Node limiter of a configured rate. -/
def NodeFair (rate : ℚ) : Prop :=
  ∀ (start : ℚ) b, NodeAgent.TokenBucket.new rate start = .ok b →
    Fair (trace NodeAgent.TokenBucket.tryTake b) start 1000 rate

/-- The Python limiter of a configured rate, as `LiveProbe` makes it. -/
def PythonFair (rate : ℚ) : Prop :=
  ∀ start : ℚ, Fair (trace (PythonAgent.TokenBucket.consume 1) (PythonAgent.TokenBucket.new rate (some rate) start))
    start 1 rate

theorem node_new (hrate : 0 < rate) (start : ℚ) :
    NodeAgent.TokenBucket.new rate start = .ok ⟨rate, rate, rate, start⟩ := if_neg hrate.not_ge

theorem python_new (hrate : 0 < rate) (start : ℚ) :
    PythonAgent.TokenBucket.new rate (some rate) start = ⟨rate, rate, rate, start⟩ := by
  rw [PythonAgent.TokenBucket.new, Option.getD_some, max_eq_right hrate.le]

theorem node_trace (start : ℚ) : trace NodeAgent.TokenBucket.tryTake ⟨rate, rate, rate, start⟩ =
    trace (Bucket.take rate rate 1000) ⟨rate, start⟩ := by
  funext times
  exact NodeAgent.TokenBucket.trace_tryTake _ times

theorem python_trace (start : ℚ) : trace (PythonAgent.TokenBucket.consume 1) ⟨rate, rate, rate, start⟩ =
    trace (Bucket.take rate rate 1) ⟨rate, start⟩ := by
  funext times
  exact PythonAgent.TokenBucket.trace_consume _ times

/-- **Fairness of the limiters**: exactly at the rates of one per second and more. -/
theorem limiters_fair_iff (hrate : 0 < rate) : (NodeFair rate ↔ 1 ≤ rate) ∧ (PythonFair rate ↔ 1 ≤ rate) := by
  constructor
  · refine ⟨fun h => ?_, fun hone start b hb => ?_⟩
    · have hfair := h 0 _ (node_new hrate 0)
      rw [node_trace] at hfair
      exact (take_fair_iff hrate (by norm_num)).mp hfair
    · rw [node_new hrate] at hb
      cases hb
      rw [node_trace]
      exact (take_fair_iff hrate (by norm_num)).mpr hone
  · refine ⟨fun h => ?_, fun hone start => ?_⟩
    · have hfair := h 0
      rw [python_new hrate, python_trace] at hfair
      exact (take_fair_iff hrate zero_lt_one).mp hfair
    · rw [python_new hrate, python_trace]
      exact (take_fair_iff hrate zero_lt_one).mpr hone

namespace Sample

theorem limiters_fair_ten : (NodeFair 10 ↔ (1 : ℚ) ≤ 10) ∧ (PythonFair 10 ↔ (1 : ℚ) ≤ 10) :=
  limiters_fair_iff (by norm_num)

/-- A rate that is accepted, and below one per second. -/
theorem halfRate_unfair :
    NodeAgent.resolveHitsPerSec (some (1 / 2)) none none = .ok (1 / 2) ∧ ¬ NodeFair (1 / 2) ∧ ¬ PythonFair (1 / 2) := by
  refine ⟨if_neg (by norm_num), fun h => ?_, fun h => ?_⟩
  · have hlast := (h 0 _ (node_new (by norm_num) 0)).live [] 0 2000 (by decide) (by norm_num)
    rw [node_trace] at hlast
    exact absurd (take_silent (by norm_num) (List.mem_of_getLast? hlast)) nofun
  · have hlast := (h 0).live [] 0 2 (by decide) (by norm_num)
    rw [python_new (by norm_num), python_trace] at hlast
    exact absurd (take_silent (by norm_num) (List.mem_of_getLast? hlast)) nofun

end Sample
