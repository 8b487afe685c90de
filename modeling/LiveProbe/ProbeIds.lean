/-
LiveProbe/ProbeIds.lean

The identifiers `createProbeId` makes: `prb_`, ten digits of the time and
sixteen random ones, in Crockford's base 32.

`encodeCrockford` shifts and masks; what it puts out are the last digits of the
value (`encodeCrockford_eq`).  The code units of the alphabet ascend, so texts
of one length are ordered as the values are, and identifiers as the times they
were made at, whatever is random in them (`probeIdOf_lt`).

The bytes that `randomBytes` of Node draws are an argument.
-/
import LiveProbe.Positional
import LiveProbe.StoredExpressions
import Mathlib.Data.Int.Bitwise

open JsString

namespace Broker

/-! ### Crockford's base 32 -/

/-- `CROCKFORD_BASE32` -/
def crockfordBase32 : JsString := js "0123456789ABCDEFGHJKMNPQRSTVWXYZ"

/-- The loop of `encodeCrockford`, with the rounds it has left; a `bigint` is
masked and shifted as the two's complement it stands for. -/
def encodeCrockfordLoop : ℕ → ℤ → JsString → JsString
  | 0, _, output => output
  | rounds + 1, remaining, output =>
    let alphabetIndex := (Int.land remaining 31).toNat
    encodeCrockfordLoop rounds (remaining >>> (5 : ℕ)) (crockfordBase32.getD alphabetIndex 0 :: output)

def encodeCrockford (value : ℤ) (length : ℕ) : JsString := encodeCrockfordLoop length value []

/-- The text of a digit. -/
def crockfordDigit (d : ℕ) : UInt16 := crockfordBase32.getD d 0

/-- Both orders of the alphabet: by place and by code unit. -/
theorem crockfordDigit_ascends : Positional.Ascends (· < ·) crockfordDigit 32 := by
  unfold Positional.Ascends
  decide

theorem idxOf_crockfordDigit : ∀ d < 32, crockfordBase32.idxOf (crockfordDigit d) = d := by
  decide

/-! ### Masks and shifts -/

/-- A mask of low bits leaves the remainder. -/
theorem land_two_pow_sub_one (z : ℤ) (k : ℕ) : Int.land z ((2 ^ k - 1 : ℕ) : ℤ) = z % (2 ^ k : ℕ) := by
  cases z with
  | ofNat m =>
    show ((m &&& (2 ^ k - 1) : ℕ) : ℤ) = _
    rw [Nat.and_two_pow_sub_one_eq_mod]
    rfl
  | negSucc m =>
    have hlt : m % 2 ^ k < 2 ^ k := Nat.mod_lt m (Nat.two_pow_pos k)
    have hbits : Nat.ldiff (2 ^ k - 1) m = 2 ^ k - (m % 2 ^ k + 1) := by
      refine Nat.eq_of_testBit_eq fun i => ?_
      rw [Nat.testBit_ldiff, Nat.testBit_two_pow_sub_one, Nat.testBit_two_pow_sub_succ hlt,
        Nat.testBit_mod_two_pow]
      by_cases hi : i < k <;> simp [hi]
    show ((Nat.ldiff (2 ^ k - 1) m : ℕ) : ℤ) = _
    rw [hbits, Int.negSucc_emod _ (by positivity)]
    omega

/-- The remainder of a product: a lower digit and the digits above it. -/
theorem emod_mul_eq (z : ℤ) {a b : ℤ} (ha : 0 < a) (hb : 0 < b) :
    z % (a * b) = z % a + a * (z / a % b) := by
  have hlow : 0 ≤ z % a := Int.emod_nonneg z ha.ne'
  have hlow' : z % a < a := Int.emod_lt_of_pos z ha
  have hhigh : 0 ≤ z / a % b := Int.emod_nonneg _ hb.ne'
  have hhigh' : z / a % b + 1 ≤ b := Int.emod_lt_of_pos _ hb
  have hvalue : z = z % a + a * (z / a % b) + a * b * (z / a / b) := by
    calc z = z % a + a * (z / a) := (Int.emod_add_mul_ediv z a).symm
      _ = z % a + a * (z / a % b + b * (z / a / b)) := by rw [Int.emod_add_mul_ediv (z / a) b]
      _ = z % a + a * (z / a % b) + a * b * (z / a / b) := by ring
  -- the two digits together stay below the product
  have hlt : z % a + a * (z / a % b) < a * b := by
    calc z % a + a * (z / a % b) < a + a * (z / a % b) := Int.add_lt_add_right hlow' _
      _ = a * (z / a % b + 1) := by ring
      _ ≤ a * b := Int.mul_le_mul_of_nonneg_left hhigh' ha.le
  conv_lhs => rw [hvalue]
  rw [Int.add_mul_emod_self_left, Int.emod_eq_of_lt (by positivity) hlt]

/-- The last of `n + 1` digits, and the digits that a shift leaves. -/
theorem digits_succ (z : ℤ) (n : ℕ) :
    (z % 32 ^ (n + 1)).toNat % 32 = (Int.land z 31).toNat ∧
      (z % 32 ^ (n + 1)).toNat / 32 = (z >>> (5 : ℕ) % 32 ^ n).toNat := by
  have hland : Int.land z 31 = z % 32 := land_two_pow_sub_one z 5
  have hshift : z >>> (5 : ℕ) = z / 32 := Int.shiftRight_eq_div_pow z 5
  have hsplit : z % 32 ^ (n + 1) = z % 32 + 32 * (z / 32 % 32 ^ n) := by
    rw [pow_succ', emod_mul_eq z (by decide) (by positivity)]
  have hhigh : 0 ≤ z / 32 % 32 ^ n := Int.emod_nonneg _ (by positivity)
  rw [hsplit, hland, hshift]
  omega

/-! ### Encoding -/

/-- The loop puts the last digits of what remains before what it has put out. -/
theorem encodeCrockfordLoop_eq (n : ℕ) (z : ℤ) (output : JsString) :
    encodeCrockfordLoop n z output =
      Positional.numeral crockfordDigit 32 n (z % 32 ^ n).toNat ++ output := by
  induction n generalizing z output with
  | zero => rfl
  | succ n ih =>
    obtain ⟨hlast, hinit⟩ := digits_succ z n
    rw [encodeCrockfordLoop, ih, Positional.numeral, hlast, hinit, List.append_assoc]
    rfl

theorem encodeCrockford_eq (value : ℤ) (n : ℕ) :
    encodeCrockford value n = Positional.numeral crockfordDigit 32 n (value % 32 ^ n).toNat := by
  rw [encodeCrockford, encodeCrockfordLoop_eq, List.append_nil]

@[simp] theorem length_encodeCrockford (value : ℤ) (n : ℕ) : (encodeCrockford value n).length = n := by
  rw [encodeCrockford_eq, Positional.length_numeral]

theorem toNat_emod_mod (value : ℤ) (n : ℕ) :
    (value % 32 ^ n).toNat % 32 ^ n = (value % 32 ^ n).toNat := by
  have hpos : (0 : ℤ) < 32 ^ n := by positivity
  have hlt : value % 32 ^ n < 32 ^ n := Int.emod_lt_of_pos value hpos
  refine Nat.mod_eq_of_lt ?_
  zify
  rw [Int.toNat_of_nonneg (Int.emod_nonneg value hpos.ne')]
  exact hlt

/-- A text determines its value up to the digits it has no room for. -/
theorem encodeCrockford_inj_iff (v w : ℤ) (n : ℕ) :
    encodeCrockford v n = encodeCrockford w n ↔ v % 32 ^ n = w % 32 ^ n := by
  have hv : 0 ≤ v % 32 ^ n := Int.emod_nonneg v (by positivity)
  have hw : 0 ≤ w % 32 ^ n := Int.emod_nonneg w (by positivity)
  rw [encodeCrockford_eq, encodeCrockford_eq,
    Positional.numeral_inj_iff (by decide) crockfordDigit_ascends.injOn, toNat_emod_mod, toNat_emod_mod]
  omega

/-- Texts are ordered as the values are, in any order that the alphabet ascends in. -/
theorem encodeCrockford_lex_iff {r : UInt16 → UInt16 → Prop} (hr : Positional.Ascends r crockfordDigit 32)
    (v w : ℤ) (n : ℕ) :
    List.Lex r (encodeCrockford v n) (encodeCrockford w n) ↔ v % 32 ^ n < w % 32 ^ n := by
  have hv : 0 ≤ v % 32 ^ n := Int.emod_nonneg v (by positivity)
  have hw : 0 ≤ w % 32 ^ n := Int.emod_nonneg w (by positivity)
  rw [encodeCrockford_eq, encodeCrockford_eq, Positional.numeral_lex_iff (by decide) hr, toNat_emod_mod,
    toNat_emod_mod]
  omega

/-! ### Identifiers -/

/-- `Number.isSafeInteger`; a number that is not finite is nothing. -/
def isSafeInteger : Option ℚ → Bool
  | some q => q.den = 1 && q.num.natAbs ≤ Schema.maxSafeInteger
  | none => false

/-- `toString("hex")` of a buffer. -/
def hexText (bytes : List UInt8) : JsString :=
  bytes.flatMap fun byte => [hexDigit (byte.toNat / 16), hexDigit (byte.toNat % 16)]

/-- `BigInt` of `0x` and lower-case digits. -/
def hexBigInt (digits : JsString) : ℤ := Positional.value hexValue 16 digits

/-- The message of the `RangeError`. -/
def timestampRange : JsString := js "now must fit in the ULID 48-bit timestamp field"

/-- `createProbeId`; `random` is what `randomBytes(10)` returns. -/
def createProbeId (now : Option ℚ) (random : Vector UInt8 10) : Except JsString JsString :=
  match now with
  | none => .error timestampRange
  | some t =>
    if !isSafeInteger now || t < 0 || t > 0xffffffffffff then .error timestampRange
    else
      let timestamp := encodeCrockford t.num 10
      let randomness := encodeCrockford (hexBigInt (hexText random.toList)) 16
      .ok (js "prb_" ++ timestamp ++ randomness)

/-- The identifier of a time and random bytes. -/
def probeIdOf (t : ℕ) (random : Vector UInt8 10) : JsString :=
  js "prb_" ++ encodeCrockford t 10 ++ encodeCrockford (hexBigInt (hexText random.toList)) 16

/-- The times that get an identifier are the natural numbers of 48 bits. -/
theorem createProbeId_eq_ok_iff {now : Option ℚ} {random : Vector UInt8 10} {id : JsString} :
    createProbeId now random = .ok id ↔
      ∃ t : ℕ, now = some (t : ℚ) ∧ t < 2 ^ 48 ∧ id = probeIdOf t random := by
  constructor
  · intro h
    rcases now with - | q
    · cases h
    simp only [createProbeId] at h
    split at h
    · cases h
    · next hguard =>
      simp only [isSafeInteger, Bool.or_eq_true, Bool.not_eq_true', Bool.and_eq_false_iff, decide_eq_false_iff_not,
        decide_eq_true_eq, not_or, not_not, not_lt] at hguard
      obtain ⟨⟨⟨hden, -⟩, hnonneg⟩, hle⟩ := hguard
      obtain ⟨t, ht⟩ : ∃ t : ℕ, q.num = t := Int.eq_ofNat_of_zero_le (Rat.num_nonneg.mpr hnonneg)
      have hq : q = t := by
        rw [← Rat.coe_int_num_of_den_eq_one hden, ht]
        rfl
      refine ⟨t, congrArg some hq, ?_, ?_⟩
      · rw [hq] at hle
        have : t ≤ 0xffffffffffff := by exact_mod_cast hle
        omega
      · rw [ht] at h
        exact (Except.ok.inj h).symm
  · rintro ⟨t, rfl, ht, rfl⟩
    have hnonneg : ¬ (t : ℚ) < 0 := not_lt.mpr (Nat.cast_nonneg t)
    have hle : ¬ (t : ℚ) > 0xffffffffffff := by
      rw [not_lt]
      exact_mod_cast (by omega : t ≤ 0xffffffffffff)
    have hsafe : isSafeInteger (some (t : ℚ)) = true := by
      have : t ≤ Schema.maxSafeInteger := ht.le.trans (by decide)
      simp [isSafeInteger, this]
    simp [createProbeId, hnonneg, hle, hsafe, probeIdOf]

/-! ### What identifiers tell -/

theorem emod_timestamp {t : ℕ} (h : t < 2 ^ 48) : (t : ℤ) % 32 ^ 10 = t :=
  Int.emod_eq_of_lt (Int.natCast_nonneg t) (by omega)

variable {t t' : ℕ} {random random' : Vector UInt8 10}

/-- Identifiers sort by their times, whatever is random in them. -/
theorem probeIdOf_lt (ht' : t' < 2 ^ 48) (hlt : t < t') : probeIdOf t random < probeIdOf t' random' := by
  have htimestamp : List.Lex (· < ·) (encodeCrockford t 10) (encodeCrockford t' 10) := by
    rw [encodeCrockford_lex_iff crockfordDigit_ascends, emod_timestamp (hlt.trans ht'), emod_timestamp ht']
    exact_mod_cast hlt
  show List.Lex (· < ·) (probeIdOf t random) (probeIdOf t' random')
  rw [probeIdOf, probeIdOf, List.append_assoc, List.append_assoc]
  refine List.Lex.append_left _ ?_ _
  exact (Positional.lex_append_iff (by simp)).mpr (.inl htimestamp)

/-- **Encodings and identifiers sort as what they encode.**  Among the values that
`n` digits have room for, different ones have different texts, and the order of
the texts is that of the values, by code unit as by place in the alphabet; an
identifier made earlier is less than one made later. -/
theorem probeIds_sortable :
    (∀ (n : ℕ) (v w : ℤ), 0 ≤ v → v < 32 ^ n → 0 ≤ w → w < 32 ^ n →
      (encodeCrockford v n = encodeCrockford w n → v = w) ∧
        (encodeCrockford v n < encodeCrockford w n ↔ v < w) ∧
        (List.Lex (fun a b => crockfordBase32.idxOf a < crockfordBase32.idxOf b)
          (encodeCrockford v n) (encodeCrockford w n) ↔ v < w)) ∧
    ∀ (t t' : ℕ) (random random' : Vector UInt8 10), t < t' → t' < 2 ^ 48 →
      ∃ id id', createProbeId (some t) random = .ok id ∧ createProbeId (some t') random' = .ok id' ∧
        id < id' := by
  constructor
  · intro n v w hv hv' hw hw'
    have hplace : Positional.Ascends (fun a b => crockfordBase32.idxOf a < crockfordBase32.idxOf b)
        crockfordDigit 32 := by
      intro d hd e he
      show crockfordBase32.idxOf _ < crockfordBase32.idxOf _ ↔ d < e
      rw [idxOf_crockfordDigit d hd, idxOf_crockfordDigit e he]
    have hmodv : v % 32 ^ n = v := Int.emod_eq_of_lt hv hv'
    have hmodw : w % 32 ^ n = w := Int.emod_eq_of_lt hw hw'
    refine ⟨fun h => ?_, ?_, ?_⟩
    · rwa [encodeCrockford_inj_iff, hmodv, hmodw] at h
    · show List.Lex (· < ·) _ _ ↔ _
      rw [encodeCrockford_lex_iff crockfordDigit_ascends, hmodv, hmodw]
    · rw [encodeCrockford_lex_iff hplace, hmodv, hmodw]
  · intro t t' random random' hlt ht'
    have hid : ∀ u : ℕ, u < 2 ^ 48 → ∀ bytes, createProbeId (some u) bytes = .ok (probeIdOf u bytes) :=
      fun u hu bytes => createProbeId_eq_ok_iff.mpr ⟨u, rfl, hu, rfl⟩
    exact ⟨_, _, hid t (hlt.trans ht') random, hid t' ht' random', probeIdOf_lt ht' hlt⟩

/-- The last millisecond before and the first after ten bits have passed, the
greater random part first. -/
theorem probeIds_sortable_carry :
    (encodeCrockford 1023 3 < encodeCrockford 1024 3 ↔ (1023 : ℤ) < 1024) ∧
      ∃ id id', createProbeId (some (1023 : ℕ)) (Vector.replicate 10 255) = .ok id ∧
        createProbeId (some (1024 : ℕ)) (Vector.replicate 10 0) = .ok id' ∧ id < id' :=
  ⟨(probeIds_sortable.1 3 1023 1024 (by decide) (by decide) (by decide) (by decide)).2.1,
    probeIds_sortable.2 1023 1024 _ _ (by decide) (by decide)⟩

example : encodeCrockford 1024 3 = js "100" := by decide

end Broker

/-! ### Probes -/

namespace BrokerState

open Broker

variable {cfg cfg' : Config} {now now' : ℕ} {draws draws' : ℕ → JsString} {input input' : CreateProbeInput}
  {scope scope' : ResourceScope} {s s' : BrokerState} {probe probe' : ProbeDefinition}

/-- The identifier of a new probe is one of the draws. -/
theorem createProbe_drawn (h : (s.createProbe cfg now draws input scope).2 = .ok probe) :
    ∃ n, probe.id = draws n := by
  obtain ⟨c, id, hreaches, hparsed, -⟩ := createProbe_eq_ok h
  have hid : probe.id = id := (newDefinition_parsed hparsed).1
  obtain ⟨n, -, hn⟩ := List.mem_map.mp (List.mem_of_find?_eq_some hreaches.drawn)
  exact ⟨n, hid.trans hn.symm⟩

/-- **Probes sort by the time they were created at**, in any two states, where
`createProbeId` draws their identifiers. -/
theorem createProbe_id_lt {random random' : ℕ → Vector UInt8 10}
    (hdraws : ∀ n, createProbeId (some now) (random n) = .ok (draws n))
    (hdraws' : ∀ n, createProbeId (some now') (random' n) = .ok (draws' n)) (hlt : now < now')
    (h : (s.createProbe cfg now draws input scope).2 = .ok probe)
    (h' : (s'.createProbe cfg' now' draws' input' scope').2 = .ok probe') : probe.id < probe'.id := by
  obtain ⟨n, hn⟩ := createProbe_drawn h
  obtain ⟨n', hn'⟩ := createProbe_drawn h'
  obtain ⟨t, ht, -, hid⟩ := createProbeId_eq_ok_iff.mp (hdraws n)
  obtain ⟨t', ht', hlt', hid'⟩ := createProbeId_eq_ok_iff.mp (hdraws' n')
  obtain rfl : now = t := by exact_mod_cast Option.some.inj ht
  obtain rfl : now' = t' := by exact_mod_cast Option.some.inj ht'
  rw [hn, hn', hid, hid']
  exact probeIdOf_lt hlt' hlt

end BrokerState
