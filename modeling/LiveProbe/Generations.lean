/-
LiveProbe/Generations.lean

The generations that tell the records of one plan from those of another.

`physicalGeneration` mixes the version of a probe with the sampling rate as the
key, so with one of the two fixed it determines the other
(`physicalGeneration_version_iff`, `physicalGeneration_sampleEvery_iff`).  One
word cannot tell all pairs apart, and it need not: the version is part of the site
id that the cookie is a digest of, so under one cookie only the rate changes.
-/
import LiveProbe.AgentCycle
import LiveProbe.SlotIsolation
import LiveProbe.WordMixing

namespace NativeAgent

open Bytes

/-! ### Generations -/

/-- The factor is the 32-bit prime of the FNV hash. -/
theorem physicalGeneration_eq_mix (probeVersion sampleEvery : ℕ) :
    (physicalGeneration probeVersion sampleEvery).toBitVec =
      WordMixing.mix 16777619#32 5 (BitVec.ofNat 32 probeVersion) (BitVec.ofNat 32 sampleEvery) := rfl

theorem odd_factor : Odd (16777619#32).toNat := by
  decide

/-- Under one sampling rate a generation determines the low 32 bits of the version. -/
theorem physicalGeneration_version_iff (version version' sampleEvery : ℕ) :
    physicalGeneration version sampleEvery = physicalGeneration version' sampleEvery ↔
      version % 2 ^ 32 = version' % 2 ^ 32 := by
  rw [← UInt32.toBitVec_inj, physicalGeneration_eq_mix, physicalGeneration_eq_mix,
    WordMixing.mix_left_inj odd_factor, ← BitVec.toNat_inj, BitVec.toNat_ofNat, BitVec.toNat_ofNat]

/-- For one version a generation determines the sampling rate. -/
theorem physicalGeneration_sampleEvery_iff (version : ℕ) (sampleEvery sampleEvery' : UInt32) :
    physicalGeneration version sampleEvery.toNat = physicalGeneration version sampleEvery'.toNat ↔
      sampleEvery = sampleEvery' := by
  rw [← UInt32.toBitVec_inj, physicalGeneration_eq_mix, physicalGeneration_eq_mix, WordMixing.mix_key_inj,
    ← BitVec.toNat_inj, BitVec.toNat_ofNat, BitVec.toNat_ofNat, Nat.mod_eq_of_lt sampleEvery.toNat_lt,
    Nat.mod_eq_of_lt sampleEvery'.toNat_lt, UInt32.toNat_inj]

/-- Two plans have one generation where the mixes of the versions differ as the rates do. -/
theorem physicalGeneration_eq_iff (version version' : ℕ) (sampleEvery sampleEvery' : UInt32) :
    physicalGeneration version sampleEvery.toNat = physicalGeneration version' sampleEvery'.toNat ↔
      physicalGeneration version 0 ^^^ physicalGeneration version' 0 = sampleEvery ^^^ sampleEvery' := by
  have hrate : ∀ s : UInt32, BitVec.ofNat 32 s.toNat = s.toBitVec := fun s => BitVec.ofNat_toNat ..
  rw [← UInt32.toBitVec_inj, ← UInt32.toBitVec_inj, UInt32.toBitVec_xor, UInt32.toBitVec_xor]
  simp only [physicalGeneration_eq_mix, hrate]
  exact WordMixing.mix_eq_mix_iff

/-! ### Records of other plans -/

section Records

variable {earlier current site : PlannedSite} {pid pid' : ℕ} {countOnly countOnly' : Bool}
  {sampleEvery sampleEvery' : UInt32} {request : AttachRequest} {plan : CapturePlan} {raw : RawEvent}

@[simp] theorem attachRequest_generation (rate : ℕ) :
    (site.attachRequest pid countOnly rate).generation = physicalGeneration site.probe.version rate := rfl

@[simp] theorem attached_cookie : (site.attached request).cookie = site.cookie := rfl

@[simp] theorem attached_generation : (site.attached request).generation = request.generation := rfl

/-- What a record says of the request its plan was made for. -/
theorem liveprobeSnapshot_identity (hplan : capturePlan request = .ok plan) (ctx : PtRegs) (mem : Memory)
    (cookie : ℕ) :
    let record := liveprobeSnapshot ctx mem plan cookie
    record.abiVersion = ABI_VERSION ∧ record.cookie = cookie ∧ record.generation = request.generation := by
  intro record
  have hhead : record.head = (emptyRecord plan cookie).head := by
    show (liveprobeSnapshot ctx mem plan cookie).head = _
    rw [liveprobeSnapshot_eq hplan, captureRun_head]
  obtain ⟨habi, -, hgeneration, hcookie⟩ := RawEvent.head_eq hhead
  exact ⟨habi, hcookie, hgeneration.trans (capturePlan_eq_ok hplan).1⟩

/-- A record of another generation is turned away. -/
theorem decodeEvent_stale (habi : raw.abiVersion = ABI_VERSION) (hcookie : raw.cookie = site.cookie)
    (hgeneration : raw.generation ≠ site.generation) :
    decodeEvent site raw =
      .error (if raw.slotCount > MAX_CAPTURE_SLOTS then "native record slot count exceeds ABI bounds"
        else "native record generation mismatch") := by
  unfold decodeEvent
  rw [if_neg (not_not.mpr ⟨habi, hcookie⟩), if_pos hgeneration]
  split <;> rfl

/-- The generation of a record and of the site it is decoded for. -/
theorem record_generation_eq_iff
    (hplan : capturePlan (earlier.attachRequest pid' countOnly' sampleEvery'.toNat) = .ok plan)
    (ctx : PtRegs) (mem : Memory) :
    (liveprobeSnapshot ctx mem plan earlier.cookie).generation =
        (current.attached (current.attachRequest pid countOnly sampleEvery.toNat)).generation ↔
      physicalGeneration earlier.probe.version 0 ^^^ physicalGeneration current.probe.version 0 =
        sampleEvery' ^^^ sampleEvery := by
  rw [(liveprobeSnapshot_identity hplan ctx mem earlier.cookie).2.2, attached_generation, attachRequest_generation,
    attachRequest_generation, physicalGeneration_eq_iff]

/-- **Generations separate plans that differ in one thing.**  A generation
determines the low 32 bits of the version when the sampling rate is known, and
the rate when the version is; so a record of a plan that differs from that of
its site in one of the two is turned away.  Where both differ it passes the
check exactly when the mixes of the versions differ as the rates do. -/
theorem generations_separate :
    (∀ version version' sampleEvery,
      physicalGeneration version sampleEvery = physicalGeneration version' sampleEvery ↔
        version % 2 ^ 32 = version' % 2 ^ 32) ∧
    (∀ version, Function.Injective fun sampleEvery : UInt32 => physicalGeneration version sampleEvery.toNat) ∧
    ∀ (earlier current : PlannedSite) (pid pid' : ℕ) (countOnly countOnly' : Bool)
      (sampleEvery sampleEvery' : UInt32) (plan : CapturePlan) (ctx : PtRegs) (mem : Memory),
      earlier.cookie = current.cookie →
      capturePlan (earlier.attachRequest pid' countOnly' sampleEvery'.toNat) = .ok plan →
      let record := liveprobeSnapshot ctx mem plan earlier.cookie
      let site := current.attached (current.attachRequest pid countOnly sampleEvery.toNat)
      ((earlier.probe.version % 2 ^ 32 ≠ current.probe.version % 2 ^ 32 ∧ sampleEvery' = sampleEvery ∨
          earlier.probe.version % 2 ^ 32 = current.probe.version % 2 ^ 32 ∧ sampleEvery' ≠ sampleEvery) →
        record.generation ≠ site.generation ∧
          decodeEvent site record =
            .error (if record.slotCount > MAX_CAPTURE_SLOTS then "native record slot count exceeds ABI bounds"
              else "native record generation mismatch")) ∧
      (record.generation = site.generation ↔
        physicalGeneration earlier.probe.version 0 ^^^ physicalGeneration current.probe.version 0 =
          sampleEvery' ^^^ sampleEvery) := by
  refine ⟨physicalGeneration_version_iff, fun version s s' h => ?_, ?_⟩
  · exact (physicalGeneration_sampleEvery_iff ..).mp h
  intro earlier current pid pid' countOnly countOnly' sampleEvery sampleEvery' plan ctx mem hcookie hplan record site
  refine ⟨fun hdiffer => ?_, record_generation_eq_iff hplan ctx mem⟩
  obtain ⟨habi, hrecord, hgeneration⟩ := liveprobeSnapshot_identity hplan ctx mem earlier.cookie
  have hne : record.generation ≠ site.generation := by
    show (liveprobeSnapshot ctx mem plan earlier.cookie).generation ≠ _
    rw [hgeneration, attached_generation, attachRequest_generation, attachRequest_generation]
    intro hsame
    rcases hdiffer with ⟨hversion, rfl⟩ | ⟨hversion, hrate⟩
    · exact hversion ((physicalGeneration_version_iff ..).mp hsame)
    · -- the version counts by its low bits only, so both plans may as well have one version
      rw [(physicalGeneration_version_iff _ _ _).mpr hversion] at hsame
      exact hrate ((physicalGeneration_sampleEvery_iff ..).mp hsame)
  have hsite : record.cookie = site.cookie := by
    show (liveprobeSnapshot ctx mem plan earlier.cookie).cookie = _
    rw [hrecord, attached_cookie, hcookie]
  exact ⟨hne, decodeEvent_stale habi hsite hne⟩

end Records

/-! ### Another sampling plan -/

/-- The records of a site that was sampled by four, once it is sampled by two. -/
theorem generations_separate_resampled :
    ∃ plan, capturePlan (localSite.attachRequest 7 false 4) = .ok plan ∧
      decodeEvent (localSite.attached (localSite.attachRequest 7 false 2))
          (liveprobeSnapshot sampleRegs sampleMemory plan localSite.cookie) =
        .error "native record generation mismatch" := by
  refine ⟨_, rfl, ?_⟩
  have h := generations_separate.2.2 localSite localSite 7 7 false false 2 4 _ sampleRegs sampleMemory rfl rfl
  exact (h.1 (.inr ⟨rfl, by decide⟩)).2

end NativeAgent
