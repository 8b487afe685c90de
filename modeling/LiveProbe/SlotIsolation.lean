/-
LiveProbe/SlotIsolation.lean

The slots of one capture do not interfere.

All watch paths of a site share one accumulator.  A path whose location starts
at a register overwrites it before using it, so that what its slot holds in the
end is what its own operations leave there when they run alone
(`slot_alone`).  A location expression that is empty reads through whatever the
path before it left: the plan of such a path begins with a dereference.
-/
import LiveProbe.Decoder

namespace NativeAgent

open Bytes Outcome

variable {debug : String → Except LocationError Variable} {probe : ProbeAssignment}
variable {siteId buildId : String} {cookie pid sampleEvery : ℕ} {paths : List String}
variable {site : PlannedSite} {plan : CapturePlan} {ctx : PtRegs} {mem : Memory}

/-! ### The slots of a site -/

/-- A watch path with a slot. -/
structure PlannedSlot where
  slot : ℕ
  path : String
  plan : CapturePathPlan
  kind : ValueKind

def plannedSlots (debug : String → Except LocationError Variable) : ℕ → List String → List PlannedSlot
  | _, [] => []
  | slot, path :: paths =>
    match planPath debug slot path with
    | .ok (plan, kind) => ⟨slot, path, plan, kind⟩ :: plannedSlots debug (slot + 1) paths
    | .error _ => plannedSlots debug (slot + 1) paths

theorem planSlots_eq (debug : String → Except LocationError Variable) (slot : ℕ) (paths : List String) :
    (planSlots debug slot paths).operations
        = (plannedSlots debug slot paths).flatMap (fun e => e.plan.operations) ∧
      (planSlots debug slot paths).slotPaths
        = (plannedSlots debug slot paths).map (fun e => (e.slot, e.path)) ∧
      (planSlots debug slot paths).slotKinds
        = (plannedSlots debug slot paths).map (fun e => (e.slot, e.kind)) := by
  induction paths generalizing slot with
  | nil => exact ⟨rfl, rfl, rfl⟩
  | cons path paths ih =>
    obtain ⟨hops, hpaths, hkinds⟩ := ih (slot + 1)
    unfold planSlots plannedSlots
    rcases planPath debug slot path with error | ⟨plan, kind⟩
    · exact ⟨hops, hpaths, hkinds⟩
    · simp [hops, hpaths, hkinds]

theorem plannedSlots_mem {slot : ℕ} {e : PlannedSlot} (h : e ∈ plannedSlots debug slot paths) :
    slot ≤ e.slot ∧ planPath debug e.slot e.path = .ok (e.plan, e.kind) := by
  induction paths generalizing slot with
  | nil => cases h
  | cons path paths ih =>
    unfold plannedSlots at h
    rcases hp : planPath debug slot path with error | ⟨plan, kind⟩
    · rw [hp] at h
      obtain ⟨hle, hplan⟩ := ih h
      exact ⟨by omega, hplan⟩
    · rw [hp] at h
      rcases List.mem_cons.mp h with rfl | h
      · exact ⟨le_rfl, hp⟩
      · obtain ⟨hle, hplan⟩ := ih h
        exact ⟨by omega, hplan⟩

theorem plannedSlots_sorted (debug : String → Except LocationError Variable) (slot : ℕ)
    (paths : List String) :
    (plannedSlots debug slot paths).Pairwise fun e f => e.slot < f.slot := by
  induction paths generalizing slot with
  | nil => exact List.Pairwise.nil
  | cons path paths ih =>
    unfold plannedSlots
    rcases planPath debug slot path with error | ⟨plan, kind⟩
    · exact ih (slot + 1)
    · exact List.pairwise_cons.mpr ⟨fun f hf => (plannedSlots_mem hf).1, ih (slot + 1)⟩

/-- The plan of a path in a slot, part by part. -/
theorem planPath_eq_ok {slot : ℕ} {path : String} {p : CapturePathPlan} {kind : ValueKind}
    (h : planPath debug slot path = .ok (p, kind)) :
    ∃ v resolved, debug path = .ok v ∧ resolveVariable v = .ok resolved ∧
      normalize path resolved.operations slot = .ok p ∧ kind = v.kind := by
  obtain ⟨v, hv, h⟩ := bind_eq_ok.mp h
  obtain ⟨resolved, hresolved, h⟩ := bind_eq_ok.mp h
  obtain ⟨p', hp, h⟩ := bind_eq_ok.mp h
  obtain ⟨rfl, rfl⟩ := Prod.mk.inj (Except.ok.inj h)
  obtain ⟨_, _, _, -, -, -, -, hkind, -⟩ := resolveVariable_eq_ok hresolved
  exact ⟨v, resolved, hv, hresolved, hp, hkind⟩

theorem planSite_eq_ok (h : planSite debug probe siteId buildId cookie paths = .ok site) :
    site.operations = (plannedSlots debug 0 paths).flatMap (fun e => e.plan.operations) ∧
      site.slotPaths = (plannedSlots debug 0 paths).map (fun e => (e.slot, e.path)) ∧
      site.slotKinds = (plannedSlots debug 0 paths).map (fun e => (e.slot, e.kind)) ∧
      site.cookie = cookie := by
  obtain ⟨⟨⟩, -, h⟩ := bind_eq_ok.mp h
  obtain ⟨⟨⟩, -, h⟩ := bind_eq_ok.mp h
  obtain rfl := Except.ok.inj h
  obtain ⟨hops, hpaths, hkinds⟩ := planSlots_eq debug 0 paths
  exact ⟨hops, hpaths, hkinds, rfl⟩

/-- In a list sorted by slots a slot is looked up where it stands. -/
theorem lookup_sorted {l : List PlannedSlot} (h : l.Pairwise fun e f => e.slot < f.slot)
    {e : PlannedSlot} (he : e ∈ l) :
    (l.map fun e => (e.slot, e.kind)).lookup e.slot = some e.kind := by
  induction l with
  | nil => cases he
  | cons f l ih =>
    obtain ⟨hf, hl⟩ := List.pairwise_cons.mp h
    rcases List.mem_cons.mp he with rfl | he
    · simp
    · have hlt := hf e he
      rw [List.map_cons, List.lookup_cons, beq_eq_false_iff_ne.mpr (by omega), ih hl he]

/-! ### What is asked of the variables -/

/-- The location expression begins by reading a register. -/
def Variable.StartsAtRegister (v : Variable) : Prop :=
  ∀ expression, v.location = .ok expression → ∃ op rest, expression = op :: rest ∧ op.readsRegister = true

/-- The value of the variable is not fetched with 64 bytes, unless it is a text. -/
def Variable.ScalarFetch (v : Variable) : Prop :=
  v.kind ≠ .cString → v.memberOffset = 0 →
    ∀ expression, v.location = .ok expression → expression.getLast? ≠ some (.deref 64)

/-- Every path with a slot but the first starts at a register, and no scalar is
fetched with 64 bytes. -/
structure PlannedSite.SelfContained (site : PlannedSite)
    (debug : String → Except LocationError Variable) : Prop where
  registers : ∀ e ∈ site.slotPaths.tail, ∀ v, debug e.2 = .ok v → v.StartsAtRegister
  scalars : ∀ e ∈ site.slotPaths, ∀ v, debug e.2 = .ok v → v.ScalarFetch

/-! ### One slot -/

/-- What the last operation of a path leaves in its slot. -/
def LocationOperation.storedWidth : LocationOperation → ℕ
  | .dereference n => n
  | .stackValue => 8
  | _ => 0

/-- A fetch that raises no flag has read its bytes and stored them. -/
theorem captureStep_dereference {s : CaptureState} {slot m : ℕ} (hslot : slot < MAX_CAPTURE_SLOTS)
    (h : (captureStep ctx mem s (LocationOperation.toCaptureOp slot (.dereference m))).event.flags = 0) :
    ∃ bytes, mem.read s.value m = some bytes ∧
      captureStep ctx mem s (LocationOperation.toCaptureOp slot (.dereference m)) =
        if m ≤ 8 then { s.store slot m bytes with value := word ((s.store slot m bytes).event.values slot) 8 }
        else s.store slot m bytes := by
  have hlt : ¬ slot ≥ MAX_CAPTURE_SLOTS := Nat.not_le.mpr hslot
  simp only [captureStep, LocationOperation.toCaptureOp, if_neg hlt, slot_and_mask hslot] at h ⊢
  split at h
  · exact absurd h (CaptureState.flag_flags_ne (by decide))
  next hvalid =>
  split at h
  · exact absurd h (CaptureState.flag_flags_ne (by decide))
  next hwidth =>
  rw [if_neg hvalid, if_neg hwidth]
  split at h
  · exact absurd h (CaptureState.flag_flags_ne (by decide))
  next bytes hread =>
  exact ⟨bytes, hread, rfl⟩

theorem captureStep_stackValue {s : CaptureState} {slot : ℕ} (hslot : slot < MAX_CAPTURE_SLOTS) :
    captureStep ctx mem s (LocationOperation.toCaptureOp slot .stackValue) =
      s.store slot 8 (leByte s.value) := by
  have hlt : ¬ slot ≥ MAX_CAPTURE_SLOTS := Nat.not_le.mpr hslot
  simp only [captureStep, LocationOperation.toCaptureOp, if_neg hlt, slot_and_mask hslot]

theorem captureStep_stored {s : CaptureState} {slot : ℕ} {op : LocationOperation}
    (hslot : slot < MAX_CAPTURE_SLOTS) (hop : op.stores = true)
    (h : (captureStep ctx mem s (op.toCaptureOp slot)).event.flags = 0) :
    (captureStep ctx mem s (op.toCaptureOp slot)).event.widths slot = op.storedWidth := by
  cases op with
  | dereference n =>
    obtain ⟨bytes, -, hstep⟩ := captureStep_dereference hslot h
    rw [hstep]
    split <;> simp [CaptureState.store, LocationOperation.storedWidth]
  | stackValue =>
    rw [captureStep_stackValue hslot]
    simp [CaptureState.store, LocationOperation.storedWidth]
  | register _ | frameOffset _ | addConstant _ | piece _ | unsupported _ => cases hop

/-! ### Independence -/

/-- The operations of one path, alone: from a zero accumulator on an empty record. -/
def aloneRecord (ctx : PtRegs) (mem : Memory) (operations : List NormalizedOp) : RawEvent :=
  (captureRun ctx mem ⟨0, { slotCount := 0, generation := 0, cookie := 0 }⟩
    (operations.map NormalizedOp.toCaptureOp)).event

/-- The operations a plan has for a slot. -/
def PlannedSite.ownOperations (site : PlannedSite) (slot : ℕ) : List NormalizedOp :=
  site.operations.filter fun op => op.destinationSlot = slot

/-- What the record of a hit is asked to hold: every slot is there, and either a
flag is set or each slot holds what its own operations leave in it and the
record is decoded. -/
structure PlannedSite.Isolated (site : PlannedSite) (record : RawEvent) (ctx : PtRegs) (mem : Memory)
    (attached : PlannedSite) : Prop where
  counted : ∀ e ∈ site.slotPaths, e.1 < record.slotCount
  slots : record.flags ≠ 0 ∨
    (∀ e ∈ site.slotPaths,
      record.widths e.1 = (aloneRecord ctx mem (site.ownOperations e.1)).widths e.1 ∧
      record.values e.1 = (aloneRecord ctx mem (site.ownOperations e.1)).values e.1) ∧
    ∃ values, decodeEvent attached record = .ok values

/-- A slot of the record holds what its own operations leave there alone, when
they are the first of the plan or begin by reading a register. -/
theorem slot_alone {s : CaptureState} {slot : ℕ} {before own after : List CaptureOp}
    (hslot : slot < MAX_CAPTURE_SLOTS)
    (hown : ∀ op ∈ own, op.destinationSlot = slot) (hbefore : ∀ op ∈ before, op.destinationSlot ≠ slot)
    (hafter : ∀ op ∈ after, op.destinationSlot ≠ slot)
    (hfirst : before = [] ∨ ∃ op rest, own = op :: rest ∧ op.code = 1)
    (hs : s.value = 0) (hw : s.event.widths slot = 0) (hv : s.event.values slot = fun _ => 0) :
    (captureRun ctx mem s (before ++ own ++ after)).event.widths slot
        = (captureRun ctx mem ⟨0, { slotCount := 0, generation := 0, cookie := 0 }⟩ own).event.widths slot ∧
      (captureRun ctx mem s (before ++ own ++ after)).event.values slot
        = (captureRun ctx mem ⟨0, { slotCount := 0, generation := 0, cookie := 0 }⟩ own).event.values slot := by
  set mid := captureRun ctx mem s before with hmid
  have hbw : mid.event.widths slot = 0 := (captureRun_other hbefore).1.trans hw
  have hbv : mid.event.values slot = fun _ => 0 := (captureRun_other hbefore).2.trans hv
  have hagree : SlotAgrees slot (captureRun ctx mem mid own)
      (captureRun ctx mem ⟨0, { slotCount := 0, generation := 0, cookie := 0 }⟩ own) := by
    rcases hfirst with rfl | ⟨op, rest, rfl, hcode⟩
    · exact captureRun_agrees ⟨hs, hbw, hbv⟩ hown
    · have hop := hown op (List.mem_cons_self ..)
      rw [captureRun_cons, captureRun_cons]
      apply captureRun_agrees
      · exact captureStep_register hbw hbv hop hslot hcode
      · exact fun o ho => hown o (List.mem_cons_of_mem _ ho)
  rw [captureRun_append, captureRun_append, ← hmid]
  exact ⟨(captureRun_other hafter).1.trans hagree.width, (captureRun_other hafter).2.trans hagree.bytes⟩

/-! ### The plan around a slot -/

/-- The operations of a slot stand together, between those of other slots. -/
theorem PlannedSlot.operations_split {e : PlannedSlot} (h : e ∈ plannedSlots debug 0 paths) :
    ∃ before after, (plannedSlots debug 0 paths).flatMap (fun e => e.plan.operations)
        = before ++ e.plan.operations ++ after ∧
      (∀ op ∈ e.plan.operations, op.destinationSlot = e.slot) ∧
      (∀ op ∈ before, op.destinationSlot ≠ e.slot) ∧ (∀ op ∈ after, op.destinationSlot ≠ e.slot) ∧
      (before = [] ∨ e ∈ (plannedSlots debug 0 paths).tail) := by
  have hslots : ∀ f ∈ plannedSlots debug 0 paths, ∀ op ∈ f.plan.operations, op.destinationSlot = f.slot := by
    intro f hf
    obtain ⟨v, resolved, -, -, hnorm, -⟩ := planPath_eq_ok (plannedSlots_mem hf).2
    exact (normalize_eq_ok hnorm).2.2.2.1
  have hsorted := plannedSlots_sorted debug 0 paths
  obtain ⟨pre, post, hsplit⟩ := List.append_of_mem h
  rw [hsplit] at hsorted hslots ⊢
  obtain ⟨-, hpost, hpre⟩ := List.pairwise_append.mp hsorted
  refine ⟨pre.flatMap (fun e => e.plan.operations), post.flatMap (fun e => e.plan.operations),
    by simp, hslots e (by simp), ?_, ?_, ?_⟩
  · intro op hop
    obtain ⟨f, hf, hop⟩ := List.mem_flatMap.mp hop
    rw [hslots f (by simp [hf]) op hop]
    exact Nat.ne_of_lt (hpre f hf e (by simp))
  · intro op hop
    obtain ⟨f, hf, hop⟩ := List.mem_flatMap.mp hop
    rw [hslots f (by simp [hf]) op hop]
    exact Nat.ne_of_gt ((List.pairwise_cons.mp hpost).1 f hf)
  · rcases pre with - | ⟨f, pre⟩
    · exact Or.inl rfl
    · exact Or.inr (by simp)

/-- The plan of a path that starts at a register reads it first. -/
theorem planPath_register {slot : ℕ} {path : String} {p : CapturePathPlan} {kind : ValueKind}
    (h : planPath debug slot path = .ok (p, kind))
    (hv : ∀ v, debug path = .ok v → v.StartsAtRegister) :
    ∃ op rest, p.operations.map NormalizedOp.toCaptureOp = op :: rest ∧ op.code = 1 := by
  obtain ⟨v, resolved, hdebug, hresolved, hnorm, -⟩ := planPath_eq_ok h
  obtain ⟨frameBase, expression, located, -, hexpr, hlocated, hops, -⟩ := resolveVariable_eq_ok hresolved
  obtain ⟨op, rest, rfl, hop⟩ := hv v hdebug expression hexpr
  obtain ⟨r, hr⟩ := locationOperations_register hop hlocated
  have hhead := fetchOperations_register hr v.memberOffset v.kind v.width
  rw [← hops] at hhead
  obtain ⟨tail, htail⟩ := List.head?_eq_some_iff.mp hhead
  rw [(normalize_eq_ok hnorm).2.2.1, htail]
  exact ⟨_, _, rfl, rfl⟩

/-- The plan of a path ends with an operation that stores a width its kind allows. -/
theorem planPath_stores {slot : ℕ} {path : String} {p : CapturePathPlan} {kind : ValueKind}
    (h : planPath debug slot path = .ok (p, kind))
    (hv : ∀ v, debug path = .ok v → v.ScalarFetch) :
    ∃ init last, p.operations.map NormalizedOp.toCaptureOp
        = init ++ [LocationOperation.toCaptureOp slot last] ∧ last.stores = true ∧
      (last.storedWidth ∈ [1, 2, 4, 8] ∨ kind = .cString ∧ last.storedWidth = 64) := by
  obtain ⟨v, resolved, hdebug, hresolved, hnorm, rfl⟩ := planPath_eq_ok h
  obtain ⟨frameBase, expression, located, -, hexpr, hlocated, hops, -, hvalid⟩ :=
    resolveVariable_eq_ok hresolved
  obtain ⟨init, last, hends, hstores, hwide⟩ :=
    fetchOperations_ends located v.memberOffset v.kind v.width
  refine ⟨init.map (LocationOperation.toCaptureOp slot), last, ?_, hstores, ?_⟩
  · rw [(normalize_eq_ok hnorm).2.2.1, hops, hends]
    simp
  · have hlast : validateOperation last = .ok () := by
      refine (validateLocation_eq_ok hvalid).2 last ?_
      rw [hops, hends]
      simp
    cases last with
    | stackValue => exact Or.inl (by decide)
    | dereference n =>
      simp only [validateOperation] at hlast
      split at hlast
      · next hn =>
        by_cases h64 : n = 64
        · subst h64
          by_cases hk : v.kind = .cString
          · exact Or.inr ⟨hk, rfl⟩
          · have hwidth : v.width ≠ 64 := by
              have := v.scalarWidth_mem
              simp only [Variable.width, if_neg hk]
              simp only [List.mem_cons, List.not_mem_nil, or_false] at this
              omega
            obtain ⟨hm, hlast64⟩ := hwide rfl hk hwidth
            exact absurd ((locationOperations_getLast hlocated).mp hlast64)
              (hv v hdebug hk hm expression hexpr)
        · refine Or.inl ?_
          simp only [List.mem_cons, List.not_mem_nil, or_false, LocationOperation.storedWidth] at hn ⊢
          omega
      · cases hlast
    | register _ | frameOffset _ | addConstant _ | piece _ | unsupported _ => cases hstores

/-! ### The record -/

/-- The operations of a slot are those of its path. -/
theorem ownOperations_eq {e : PlannedSlot} {before after : List NormalizedOp}
    (hsplit : site.operations = before ++ e.plan.operations ++ after)
    (hown : ∀ op ∈ e.plan.operations, op.destinationSlot = e.slot)
    (hbefore : ∀ op ∈ before, op.destinationSlot ≠ e.slot)
    (hafter : ∀ op ∈ after, op.destinationSlot ≠ e.slot) :
    site.ownOperations e.slot = e.plan.operations := by
  have hb : before.filter (fun op => op.destinationSlot = e.slot) = [] :=
    List.filter_eq_nil_iff.mpr fun op hop => by simpa using hbefore op hop
  have ha : after.filter (fun op => op.destinationSlot = e.slot) = [] :=
    List.filter_eq_nil_iff.mpr fun op hop => by simpa using hafter op hop
  have ho : e.plan.operations.filter (fun op => op.destinationSlot = e.slot) = e.plan.operations :=
    List.filter_eq_self.mpr fun op hop => by simpa using hown op hop
  rw [PlannedSite.ownOperations, hsplit, List.filter_append, List.filter_append, hb, ha, ho]
  simp

theorem decodeSlots_ok {attached : PlannedSite} {raw : RawEvent} {slots : List (ℕ × String)}
    (h : ∀ e ∈ slots, ∃ node,
      decodeNode raw e.1 ((attached.slotKinds.lookup e.1).getD .unsigned) = .ok node) :
    ∃ values, decodeSlots attached raw slots = .ok values := by
  induction slots with
  | nil => exact ⟨[], rfl⟩
  | cons e slots ih =>
    obtain ⟨node, hnode⟩ := h e (List.mem_cons_self ..)
    obtain ⟨values, hvalues⟩ := ih fun f hf => h f (List.mem_cons_of_mem _ hf)
    refine ⟨(e.2, node) :: values, ?_⟩
    unfold decodeSlots
    rw [hnode, hvalues]
    rfl

/-- A record of an attached site is decoded when every slot of the site is. -/
theorem decodeEvent_ok {request : AttachRequest} {raw : RawEvent}
    (h : ∀ e ∈ site.slotPaths, ∃ node,
      decodeNode raw e.1 ((site.slotKinds.lookup e.1).getD .unsigned) = .ok node)
    (habi : raw.abiVersion = ABI_VERSION) (hcookie : raw.cookie = site.cookie)
    (hcount : raw.slotCount ≤ MAX_CAPTURE_SLOTS) (hgeneration : raw.generation = request.generation)
    (hflags : raw.flags = 0) : ∃ values, decodeEvent (site.attached request) raw = .ok values := by
  obtain ⟨values, hvalues⟩ : ∃ values,
      decodeSlots (site.attached request) raw site.slotPaths = .ok values := decodeSlots_ok h
  refine ⟨site.unavailable ++ values, ?_⟩
  have hgen : ¬ raw.generation ≠ (site.attached request).generation := not_not.mpr hgeneration
  unfold decodeEvent
  rw [if_neg (not_not.mpr ⟨habi, hcookie⟩), if_neg (by omega), if_neg hgen,
    if_neg (not_not.mpr hflags)]
  show decodeSlots (site.attached request) raw site.slotPaths >>= _ = _
  rw [hvalues]
  rfl

/-- An unflagged run leaves in a slot the width its last operation stores. -/
theorem captureRun_stored {s : CaptureState} {slot : ℕ} {before init after : List CaptureOp}
    {last : LocationOperation} (hslot : slot < MAX_CAPTURE_SLOTS) (hlast : last.stores = true)
    (hafter : ∀ op ∈ after, op.destinationSlot ≠ slot)
    (h : (captureRun ctx mem s (before ++ (init ++ [last.toCaptureOp slot]) ++ after)).event.flags = 0) :
    (captureRun ctx mem s (before ++ (init ++ [last.toCaptureOp slot]) ++ after)).event.widths slot
      = last.storedWidth := by
  have hrun : captureRun ctx mem s (before ++ (init ++ [last.toCaptureOp slot]) ++ after)
      = captureRun ctx mem (captureStep ctx mem (captureRun ctx mem s (before ++ init))
          (last.toCaptureOp slot)) after := by
    simp only [captureRun_append, captureRun_cons, captureRun_nil]
  rw [hrun] at h ⊢
  rw [(captureRun_other hafter).1]
  exact captureStep_stored hslot hlast (captureRun_flags h)

/-- The plan of a site around the operations of one slot. -/
theorem site_split (hsite : planSite debug probe siteId buildId cookie paths = .ok site)
    {f : PlannedSlot} (hf : f ∈ plannedSlots debug 0 paths) :
    site.ownOperations f.slot = f.plan.operations ∧
      ∃ before after, site.operations.map NormalizedOp.toCaptureOp
          = before ++ f.plan.operations.map NormalizedOp.toCaptureOp ++ after ∧
        (∀ op ∈ f.plan.operations.map NormalizedOp.toCaptureOp, op.destinationSlot = f.slot) ∧
        (∀ op ∈ before, op.destinationSlot ≠ f.slot) ∧ (∀ op ∈ after, op.destinationSlot ≠ f.slot) ∧
        (before = [] ∨ (f.slot, f.path) ∈ site.slotPaths.tail) := by
  obtain ⟨hops, hpaths, -⟩ := planSite_eq_ok hsite
  obtain ⟨before, after, hsplit, hown, hbefore, hafter, hfirst⟩ := f.operations_split hf
  rw [← hops] at hsplit
  refine ⟨ownOperations_eq hsplit hown hbefore hafter, before.map NormalizedOp.toCaptureOp,
    after.map NormalizedOp.toCaptureOp, by simp [hsplit], ?_, ?_, ?_, ?_⟩
  · exact List.forall_mem_map.mpr hown
  · exact List.forall_mem_map.mpr hbefore
  · exact List.forall_mem_map.mpr hafter
  · rcases hfirst with rfl | htail
    · exact Or.inl rfl
    · refine Or.inr ?_
      rw [hpaths, ← List.map_tail]
      exact List.mem_map_of_mem htail

theorem PlannedSlot.slot_lt {f : PlannedSlot} (hf : f ∈ plannedSlots debug 0 paths) :
    f.slot < MAX_CAPTURE_SLOTS ∧ ∀ op ∈ f.plan.operations, op.destinationSlot = f.slot := by
  obtain ⟨v, resolved, -, -, hnorm, -⟩ := planPath_eq_ok (plannedSlots_mem hf).2
  obtain ⟨hslot, -, -, hown, -⟩ := normalize_eq_ok hnorm
  exact ⟨hslot, hown⟩

/-- Every slot is one of the record's, and the record has no more than there are. -/
theorem site_slotCount (hsite : planSite debug probe siteId buildId cookie paths = .ok site)
    (hplan : capturePlan (site.attachRequest pid false sampleEvery) = .ok plan)
    (hself : site.SelfContained debug) :
    plan.slotCount ≤ MAX_CAPTURE_SLOTS ∧
      ∀ f ∈ plannedSlots debug 0 paths, f.slot < plan.slotCount := by
  obtain ⟨hops, hpaths, -⟩ := planSite_eq_ok hsite
  obtain ⟨-, hcounted, hcount⟩ := capturePlan_eq_ok hplan
  constructor
  · refine hcount fun op hop => ?_
    change op ∈ site.operations at hop
    rw [hops] at hop
    obtain ⟨f, hf, hop⟩ := List.mem_flatMap.mp hop
    rw [(PlannedSlot.slot_lt hf).2 op hop]
    exact (PlannedSlot.slot_lt hf).1
  · intro f hf
    obtain ⟨init, last, hlast, -⟩ := planPath_stores (plannedSlots_mem hf).2
      (hself.scalars (f.slot, f.path) (by rw [hpaths]; exact List.mem_map_of_mem hf))
    obtain ⟨op, hop⟩ : ∃ op, op ∈ f.plan.operations := by
      refine List.exists_mem_of_ne_nil _ fun hnil => ?_
      rw [hnil] at hlast
      simp at hlast
    rw [← (PlannedSlot.slot_lt hf).2 op hop]
    refine hcounted op ?_
    change op ∈ site.operations
    rw [hops]
    exact List.mem_flatMap.mpr ⟨f, hf, hop⟩

/-- **The slots of a capture do not interfere**: where every path with a slot but
the first starts at a register and no scalar is fetched with 64 bytes, the
record has a flag or each slot holds what its own operations leave there alone,
and the record is decoded. -/
theorem PlannedSite.isolated_of_selfContained
    (hsite : planSite debug probe siteId buildId cookie paths = .ok site)
    (hplan : capturePlan (site.attachRequest pid false sampleEvery) = .ok plan)
    (hself : site.SelfContained debug) (ctx : PtRegs) (mem : Memory) :
    site.Isolated (liveprobeSnapshot ctx mem plan site.cookie) ctx mem
      (site.attached (site.attachRequest pid false sampleEvery)) := by
  obtain ⟨hops, hpaths, hkinds, -⟩ := planSite_eq_ok hsite
  obtain ⟨hcount, hbelow⟩ := site_slotCount hsite hplan hself
  have hrun : liveprobeSnapshot ctx mem plan site.cookie
      = (captureRun ctx mem ⟨0, emptyRecord plan site.cookie⟩
          (site.operations.map NormalizedOp.toCaptureOp)).event := liveprobeSnapshot_eq hplan site.cookie
  generalize liveprobeSnapshot ctx mem plan site.cookie = record at hrun ⊢
  obtain ⟨habi, hslotCount, hgeneration, hcookie⟩ :
      record.abiVersion = ABI_VERSION ∧ record.slotCount = plan.slotCount ∧
        record.generation = plan.generation ∧ record.cookie = site.cookie := by
    have hhead : record.head = (emptyRecord plan site.cookie).head := by rw [hrun, captureRun_head]
    exact RawEvent.head_eq hhead
  -- Each slot comes from a planned slot, whose operations are a stretch of the plan.
  have hslot : ∀ e ∈ site.slotPaths, ∃ f ∈ plannedSlots debug 0 paths, e = (f.slot, f.path) := by
    intro e he
    rw [hpaths] at he
    obtain ⟨f, hf, rfl⟩ := List.mem_map.mp he
    exact ⟨f, hf, rfl⟩
  refine ⟨fun e he => ?_, ?_⟩
  · obtain ⟨f, hf, rfl⟩ := hslot e he
    rw [hslotCount]
    exact hbelow f hf
  by_cases hflags : record.flags = 0
  swap
  · exact Or.inl hflags
  refine Or.inr ⟨fun e he => ?_, ?_⟩
  · obtain ⟨f, hf, rfl⟩ := hslot e he
    obtain ⟨hownOps, before, after, hsplit, hown, hbefore, hafter, hfirst⟩ := site_split hsite hf
    rw [hownOps, hrun, hsplit]
    refine slot_alone (PlannedSlot.slot_lt hf).1 hown hbefore hafter ?_ rfl rfl rfl
    rcases hfirst with hnil | htail
    · exact Or.inl hnil
    · exact Or.inr (planPath_register (plannedSlots_mem hf).2 (hself.registers _ htail))
  · refine decodeEvent_ok ?_ habi hcookie (by omega) ?_ hflags
    · intro e he
      obtain ⟨f, hf, rfl⟩ := hslot e he
      obtain ⟨-, before, after, hsplit, -, -, hafter, -⟩ := site_split hsite hf
      obtain ⟨init, last, hlast, hstores, hwidth⟩ :=
        planPath_stores (plannedSlots_mem hf).2 (hself.scalars _ he)
      have hstored : record.widths f.slot = last.storedWidth := by
        rw [hrun, hsplit, hlast] at hflags ⊢
        exact captureRun_stored (PlannedSlot.slot_lt hf).1 hstores hafter hflags
      have hkind : (site.slotKinds.lookup f.slot).getD .unsigned = f.kind := by
        rw [hkinds, lookup_sorted (plannedSlots_sorted debug 0 paths) hf]
        rfl
      rw [hkind]
      exact ⟨_, decodeNode_eq habi (by rw [hslotCount]; exact hbelow f hf) (PlannedSlot.slot_lt hf).1
        (by rw [hstored]; exact hwidth)⟩
    · rw [hgeneration, (capturePlan_eq_ok hplan).1]

/-! ### Two captures -/

/-- A variable in a register, one in the frame and one without a location. -/
def sampleDebug : String → Except LocationError Variable
  | "held" => .ok {
      memberOffset := 0, scalarWidth := 8, scalarWidth_mem := by decide, kind := .unsigned
      location := .ok [.register 3], frameBase := none }
  | "local" => .ok {
      memberOffset := 0, scalarWidth := 4, scalarWidth_mem := by decide, kind := .signed
      location := .ok [.registerOffset 6 (-8)], frameBase := none }
  | "gone" => .ok {
      memberOffset := 0, scalarWidth := 4, scalarWidth_mem := by decide, kind := .signed
      location := .ok [], frameBase := none }
  | _ => .error (.unsupported "variable-not-found")

def sampleProbe : ProbeAssignment where
  id := "probe"
  version := 1
  kind := "snapshot"
  hitLimit := 3
  ttlSeconds := 30
  conditional := false

/-- Every register holds 4096. -/
def sampleRegs : PtRegs := fun _ => 4096

/-- Every byte that can be read is 42. -/
def sampleMemory : Memory := fun address => if address < 8192 then some 42 else none

/-- The site of the register variable and a second one with these operations. -/
def sampleSite (path : String) (operations : List NormalizedOp) : PlannedSite where
  probe := sampleProbe
  siteId := "site"
  cookie := 99
  generation := 1
  operations := [⟨.readRegister, 3, 8, 0, 0⟩, ⟨.stackValue, 0, 8, 0, 0⟩] ++ operations
  slotPaths := [(0, "held"), (1, path)]
  slotKinds := [(0, .unsigned), (1, .signed)]
  unavailable := []

def localSite : PlannedSite := sampleSite "local"
  [⟨.readRegister, 6, 8, 1, 0⟩, ⟨.addConstant, 0, 8, 1, -8⟩, ⟨.dereferenceFixed, 0, 4, 1, 0⟩]

def goneSite : PlannedSite := sampleSite "gone" [⟨.dereferenceFixed, 0, 4, 1, 0⟩]

theorem localSite_planned :
    planSite sampleDebug sampleProbe "site" "build" 99 ["held", "local"] = .ok localSite := rfl

/-- The theorem at a register variable and a frame variable. -/
theorem localSite_isolated : ∃ plan, capturePlan (localSite.attachRequest 7 false 1) = .ok plan ∧
    localSite.Isolated (liveprobeSnapshot sampleRegs sampleMemory plan localSite.cookie) sampleRegs
      sampleMemory (localSite.attached (localSite.attachRequest 7 false 1)) := by
  refine ⟨_, rfl, PlannedSite.isolated_of_selfContained localSite_planned rfl ?_ _ _⟩
  constructor
  · intro e he v hv expression hexpr
    obtain rfl : e = (1, "local") := List.mem_singleton.mp he
    cases hv
    cases hexpr
    exact ⟨_, _, rfl, rfl⟩
  · intro e he v hv hk hm expression hexpr
    simp only [localSite, sampleSite, List.mem_cons, List.not_mem_nil, or_false] at he
    rcases he with rfl | rfl <;> cases hv <;> cases hexpr <;> simp

/-- **An empty location reads through its neighbour**: the record has no flag, and
the second slot holds four bytes where alone it holds none. -/
theorem goneSite_not_isolated :
    planSite sampleDebug sampleProbe "site" "build" 99 ["held", "gone"] = .ok goneSite ∧
    ∃ plan, capturePlan (goneSite.attachRequest 7 false 1) = .ok plan ∧
      ¬ goneSite.Isolated (liveprobeSnapshot sampleRegs sampleMemory plan goneSite.cookie) sampleRegs
        sampleMemory (goneSite.attached (goneSite.attachRequest 7 false 1)) := by
  refine ⟨rfl, _, rfl, fun h => ?_⟩
  rcases h.slots with hflags | ⟨hslots, -⟩
  · exact hflags (by decide)
  · exact absurd (hslots (1, "gone") (by decide)).1 (by decide)

end NativeAgent
