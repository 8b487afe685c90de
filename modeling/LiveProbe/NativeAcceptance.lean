/-
LiveProbe/NativeAcceptance.lean

Which reports of the native agent the broker admits.

Everything a report is made of fits its schema by what the broker itself has
checked before (the ids of the agent, the instance and the probe), by the bounds
of the serializer, or because it is one of a few fixed names.  What is left are
three bounds of the schema that no bound of the agent meets: 300 units for a
site id, which is put together from ids of up to 300 and 128 units; 65,536 units
for a log; and the safe integers for a counter of 64 bits.
-/
import LiveProbe.NativeSanitizer
import Mathlib.Data.String.Basic

open JsString Protocol Schema

namespace NativeAgent

/-! ### Texts on the wire -/

theorem wire_append (s t : String) : wire (s ++ t) = wire s ++ wire t := by
  unfold wire
  rw [String.toList_append, List.flatMap_append]

theorem wire_ofList (l : List Char) :
    wire (String.ofList l) = l.flatMap fun c => pointUnits c.toNat := by
  unfold wire
  rw [String.toList_ofList]

/-- A character beyond the basic plane has two units and four bytes. -/
theorem length_pointUnits_le (c : Char) : (pointUnits c.toNat).length ≤ c.utf8Size := by
  unfold pointUnits
  split
  · exact c.utf8Size_pos
  · rename_i hlarge
    have hval : ¬ c.val ≤ 0xFFFF := by
      rw [UInt32.le_iff_toNat_le]
      have hnat : c.val.toNat = c.toNat := rfl
      rw [hnat]
      simp only [UInt32.reduceToNat]
      omega
    have h2 : ¬ c.val ≤ 0x7FF := fun h => hval (UInt32.le_trans h (by decide))
    have h1 : ¬ c.val ≤ 0x7F := fun h => h2 (UInt32.le_trans h (by decide))
    have hsize : c.utf8Size = 4 := by
      unfold Char.utf8Size
      exact (if_neg h1).trans ((if_neg h2).trans (if_neg hval))
    rw [hsize]
    simp

theorem length_flatMap_pointUnits_le (l : List Char) :
    (l.flatMap fun c => pointUnits c.toNat).length ≤ String.utf8Len l := by
  induction l with
  | nil => exact Nat.zero_le _
  | cons c l ih =>
    rw [List.flatMap_cons, List.length_append, String.utf8Len_cons, Nat.add_comm]
    exact Nat.add_le_add ih (length_pointUnits_le c)

/-- A text has no more units than bytes. -/
theorem length_wire_le (s : String) : (wire s).length ≤ s.utf8ByteSize := by
  rw [← String.utf8Len_toList]
  exact length_flatMap_pointUnits_le s.toList

theorem wire_toString (n : ℕ) : wire (toString n) = decimal n := by
  have htext : (toString n).toList = Nat.toDigits 10 n := Nat.toList_repr
  unfold wire decimal
  rw [htext, List.map_eq_flatMap]
  refine List.flatMap_congr fun c hc => ?_
  have hdigit := Nat.isDigit_of_mem_toDigits (by omega) (by omega) hc
  have hlt : c.toNat < 0x10000 := by
    rw [← toNat_unit_of_isDigit hdigit]
    exact (unit c).toNat_lt
  exact if_pos hlt

/-! ### Schemas of single fields -/

/-- A schema that reads one field after the other reads them all. -/
theorem isSome_bind_of_const {α β : Type} {o : Option α} {f : α → Option β} {b : Bool}
    (h : ∀ a, (f a).isSome = b) : (o.bind f).isSome = (o.isSome && b) := by
  cases o with
  | none => rfl
  | some a => exact h a

theorem isSome_refine {α : Type} (p : α → Bool) (a : α) : (Schema.refine p a).isSome = p a := by
  unfold Schema.refine
  cases p a <;> rfl

theorem isSome_trimmed (lo hi : ℕ) (s : JsString) :
    (trimmed lo hi s).isSome = decide (lo ≤ (trim s).length ∧ (trim s).length ≤ hi) :=
  isSome_refine (fun s : JsString => decide (lo ≤ s.length ∧ s.length ≤ hi)) (trim s)

theorem isSome_nonnegativeInt (n : ℕ) :
    (nonnegativeInt n).isSome = decide (n ≤ maxSafeInteger) := by
  unfold nonnegativeInt intBetween
  rw [isSome_refine]
  exact decide_eq_decide.mpr ⟨fun h => h.2.2, fun h => ⟨Nat.zero_le _, h, h⟩⟩

theorem isSome_optional {α : Type} (s : Schema α) (o : Option α) :
    (optional s o).isSome = o.all fun a => (s a).isSome := by
  cases o with
  | none => rfl
  | some a => exact Option.isSome_map

/-- A text whose ends are no white space is its own trimming. -/
theorem trim_of_ends {s : JsString} (hhead : ∀ c ∈ s.head?, isSpace c = false)
    (hlast : ∀ c ∈ s.getLast?, isSpace c = false) : trim s = s := by
  rcases s with - | ⟨c, t⟩
  · rfl
  · have hl : (c :: t).dropWhile isSpace = c :: t :=
      List.dropWhile_cons_of_neg (by rw [hhead c rfl]; exact Bool.false_ne_true)
    rw [trim, hl, List.rdropWhile_eq_self_iff]
    intro hne
    rw [hlast _ (List.getLast?_eq_getLast_of_ne_nil hne ▸ rfl)]
    exact Bool.false_ne_true

theorem isSome_nativeUnavailableValueSchema (v : UnavailableValue) :
    (nativeUnavailableValueSchema v).isSome = ((optional (text 0 4096) v.detail).isSome &&
      ((optional (boundedIdSchema 300) v.siteId).isSome &&
        ((optional nativeBuildIdSchema v.buildId).isSome && true))) :=
  isSome_bind_of_const fun _ => isSome_bind_of_const fun _ => isSome_bind_of_const fun _ => rfl

theorem isSome_resolutionSchema (r : Resolution) :
    (resolutionSchema r).isSome = ((sourceFileSchema r.sourceFile).isSome &&
      ((positiveInt r.line).isSome && ((nonnegativeInt r.resolvedSiteCount).isSome &&
        ((nonnegativeInt r.requestedPathCount).isSome && true)))) :=
  isSome_bind_of_const fun _ => isSome_bind_of_const fun _ => isSome_bind_of_const fun _ =>
    isSome_bind_of_const fun _ => rfl

theorem isSome_nativeStatusMetadataSchema (m : NativeStatusMetadata) :
    (nativeStatusMetadataSchema m).isSome = ((optional (boundedIdSchema 200) m.agentId).isSome &&
      ((optional (boundedIdSchema 300) m.instanceId).isSome &&
        ((optional nativeBuildIdSchema m.buildId).isSome &&
          ((optional (boundedIdSchema 300) m.siteId).isSome &&
            ((optional resolutionSchema m.resolution).isSome &&
              ((optional (boundedArray variableAvailabilitySchema 0 100)
                  m.variableAvailability).isSome &&
                ((optional nonnegativeInt m.physicalSiteCount).isSome &&
                  ((optional nonnegativeNumber m.rawHitRate).isSome &&
                    ((optional nonnegativeInt m.droppedEventCount).isSome && true))))))))) :=
  isSome_bind_of_const fun _ => isSome_bind_of_const fun _ => isSome_bind_of_const fun _ =>
    isSome_bind_of_const fun _ => isSome_bind_of_const fun _ => isSome_bind_of_const fun _ =>
      isSome_bind_of_const fun _ => isSome_bind_of_const fun _ => isSome_bind_of_const fun _ => rfl

/-- An event of a known probe at a time is accepted when its own fields are. -/
theorem isSome_nativeProbeEventSchema {probeId ts : JsString} {version : ℕ} (body : EventBody)
    (hid : isProbeId probeId = true) (hversion : (positiveInt version).isSome)
    (hts : (timestampSchema ts).isSome) :
    (nativeProbeEventSchema ⟨probeId, some version, ts, body⟩).isSome
      = (eventBodySchema nativeUnavailableValueSchema sourceFileSchema body).isSome := by
  have hid' : (probeIdSchema probeId).isSome = true := (isSome_refine _ _).trans hid
  have hall : (nativeProbeEventSchema ⟨probeId, some version, ts, body⟩).isSome
      = ((probeIdSchema probeId).isSome && ((positiveInt version).isSome &&
        ((timestampSchema ts).isSome &&
          ((eventBodySchema nativeUnavailableValueSchema sourceFileSchema body).isSome && true)))) := by
    unfold nativeProbeEventSchema
    simp only [Option.bind_eq_bind, Option.bind_some]
    exact isSome_bind_of_const fun _ => isSome_bind_of_const fun _ => isSome_bind_of_const fun _ =>
      isSome_bind_of_const fun _ => rfl
  rw [hall, hid', hversion, hts]
  simp only [Bool.true_and, Bool.and_true]

/-! ### The values of a record -/

/-- The reasons a planned site gives for a path without a slot. -/
def locationReasons : List String :=
  ["variable-optimized-out", "floating-point-register-unavailable", "variable-not-found",
    "unsupported-type", "unsupported-register-piece", "unsupported-location-expression"]

/-- What is sent for a path: a leaf, which names its site when it is unavailable. -/
def Leaf (siteId buildId : String) : OutboundNode → Prop
  | .str _ | .num _ | .bool _ | .redacted => True
  | .truncated v => v = "props"
  | .unavailable v => v.reasonCode ∈ locationReasons ∧ v.detail = none ∧
    v.siteId = some siteId ∧ v.buildId = some buildId
  | .null | .obj _ => False

section

variable {siteId buildId : String}

theorem reasonCode_mem (error : LocationError) : reasonCode error ∈ locationReasons := by
  cases error with
  | optimizedOut => exact List.mem_cons_self
  | floatingPointRegister => exact List.mem_cons_of_mem _ List.mem_cons_self
  | unsupported detail =>
    unfold reasonCode
    dsimp only
    split_ifs <;> decide

theorem mem_mapInsert {α : Type} {key : String} {value : α} {l : List (String × α)}
    {x : String × α} (h : x ∈ mapInsert key value l) : x = (key, value) ∨ x ∈ l := by
  induction l with
  | nil => exact Or.inl (List.mem_singleton.mp h)
  | cons e rest ih =>
    unfold mapInsert at h
    split_ifs at h with h1 h2
    · exact List.mem_cons.mp h
    · exact (List.mem_cons.mp h).imp_right (List.mem_cons_of_mem _)
    · rcases List.mem_cons.mp h with rfl | h
      · exact Or.inr List.mem_cons_self
      · exact (ih h).imp_right (List.mem_cons_of_mem _)

theorem leaf_rawValues {decoded : List (String × SanitizedNode)}
    (h : ∀ y ∈ decoded, Leaf siteId buildId y.2.outbound) :
    ∀ x ∈ rawValues decoded, Leaf siteId buildId x.2 := by
  have hfold : ∀ values : List (String × OutboundNode),
      (∀ x ∈ values, Leaf siteId buildId x.2) →
      ∀ x ∈ decoded.foldl (fun values y => mapInsert y.1 y.2.outbound values) values,
        Leaf siteId buildId x.2 := by
    induction decoded with
    | nil => exact fun values hvalues => hvalues
    | cons y rest ih =>
      intro values hvalues
      refine ih (fun z hz => h z (List.mem_cons_of_mem _ hz)) _ fun x hx => ?_
      rcases mem_mapInsert hx with rfl | hx
      · exact h y List.mem_cons_self
      · exact hvalues x hx
  exact hfold [] fun _ hx => absurd hx List.not_mem_nil

/-- No slot decodes to an unavailable value. -/
theorem leaf_decodeNode {event : RawEvent} {slot : ℕ} {kind : ValueKind} {node : SanitizedNode}
    (h : decodeNode event slot kind = .ok node) : Leaf siteId buildId node.outbound := by
  unfold decodeNode at h
  dsimp only at h
  split_ifs at h with h1 h2 h3 h4 h5
  · obtain rfl := Except.ok.inj h
    trivial
  · rcases hunsigned : decodeUnsigned event slot with message | unsigned <;> rw [hunsigned] at h
    · cases h
    · cases kind <;> (obtain rfl := Except.ok.inj h; trivial)

theorem leaf_decodeSlots {site : PlannedSite} {raw : RawEvent} {slots : List (ℕ × String)}
    {decoded : List (String × SanitizedNode)} (h : decodeSlots site raw slots = .ok decoded) :
    ∀ y ∈ decoded, Leaf siteId buildId y.2.outbound := by
  induction slots generalizing decoded with
  | nil =>
    obtain rfl := Except.ok.inj h
    exact fun _ hy => absurd hy List.not_mem_nil
  | cons slot slots ih =>
    unfold decodeSlots at h
    rcases hnode : decodeNode raw slot.1 ((site.slotKinds.lookup slot.1).getD .unsigned)
      with message | node <;> rw [hnode] at h
    · cases h
    · rcases hothers : decodeSlots site raw slots with message | others <;> rw [hothers] at h
      · cases h
      · obtain rfl := Except.ok.inj h
        intro y hy
        rcases List.mem_cons.mp hy with rfl | hy
        · exact leaf_decodeNode hnode
        · exact ih hothers y hy

theorem leaf_decodeEvent {site : PlannedSite} {raw : RawEvent}
    {decoded : List (String × SanitizedNode)}
    (hsite : ∀ y ∈ site.unavailable, Leaf siteId buildId y.2.outbound)
    (h : decodeEvent site raw = .ok decoded) : ∀ y ∈ decoded, Leaf siteId buildId y.2.outbound := by
  unfold decodeEvent at h
  split_ifs at h with h1 h2 h3 h4
  rcases hslots : decodeSlots site raw site.slotPaths with message | slots <;> rw [hslots] at h
  · cases h
  · obtain rfl := Except.ok.inj h
    intro y hy
    rcases List.mem_append.mp hy with hy | hy
    · exact hsite y hy
    · exact leaf_decodeSlots hslots y hy

variable {codec : Codec} {config : SerializerConfig}

theorem leaf_sanitizeNode {key : String} {value node : OutboundNode} {depth properties after : ℕ}
    (hvalue : Leaf siteId buildId value)
    (h : sanitizeNode codec config key value depth properties = some (node, after)) :
    Leaf siteId buildId node := by
  unfold sanitizeNode at h
  by_cases h1 : keyIsRedacted key config
  · rw [if_pos h1] at h
    obtain ⟨rfl, -⟩ := Prod.mk.inj (Option.some.inj h)
    trivial
  · rw [if_neg h1] at h
    by_cases h2 : (exactValue codec value).any (· ∈ config.redactValues)
    · rw [if_pos h2] at h
      obtain ⟨rfl, -⟩ := Prod.mk.inj (Option.some.inj h)
      trivial
    · rw [if_neg h2] at h
      cases value with
      | null => exact hvalue.elim
      | obj c => exact hvalue.elim
      | str v =>
        dsimp only at h
        split_ifs at h with h3
        · obtain ⟨w, -, hw⟩ := Option.map_eq_some_iff.mp h
          obtain ⟨rfl, -⟩ := Prod.mk.inj hw
          trivial
        · obtain ⟨rfl, -⟩ := Prod.mk.inj (Option.some.inj h)
          trivial
      | unavailable v =>
        obtain ⟨rfl, -⟩ := Prod.mk.inj (Option.some.inj h)
        exact ⟨hvalue.1, rfl, hvalue.2.2⟩
      | num v | bool v | redacted | truncated v =>
        obtain ⟨rfl, -⟩ := Prod.mk.inj (Option.some.inj h)
        exact hvalue

theorem leaf_sanitizeMembers {members children : List (String × OutboundNode)}
    {depth properties after : ℕ} (hmembers : ∀ x ∈ members, Leaf siteId buildId x.2)
    (h : sanitizeMembers codec config members depth properties = some (children, after)) :
    ∀ x ∈ children, Leaf siteId buildId x.2 := by
  induction members generalizing properties children after with
  | nil =>
    obtain ⟨rfl, -⟩ := Prod.mk.inj (Option.some.inj h)
    exact hmembers
  | cons member rest ih =>
    unfold sanitizeMembers at h
    dsimp only at h
    split_ifs at h with h1
    · obtain ⟨rfl, -⟩ := Prod.mk.inj (Option.some.inj h)
      exact fun _ hx => absurd hx List.not_mem_nil
    · obtain ⟨⟨node, between⟩, hnode, h⟩ := Option.bind_eq_some_iff.mp h
      obtain ⟨⟨others, last⟩, hothers, h⟩ := Option.bind_eq_some_iff.mp h
      obtain ⟨rfl, -⟩ := Prod.mk.inj (Option.some.inj h)
      intro x hx
      rcases List.mem_cons.mp hx with rfl | hx
      · exact leaf_sanitizeNode (hmembers member List.mem_cons_self) hnode
      · exact ih (fun x hx => hmembers x (List.mem_cons_of_mem _ hx)) hothers x hx

theorem leaf_sanitizeValues {values children : List (String × OutboundNode)}
    (hvalues : ∀ x ∈ values, Leaf siteId buildId x.2)
    (h : sanitizeValues codec config values = some children) :
    ∀ x ∈ children, Leaf siteId buildId x.2 := by
  obtain ⟨⟨members, properties⟩, hmembers, h⟩ := Option.bind_eq_some_iff.mp h
  dsimp only at h
  split_ifs at h with h1
  · obtain rfl := Option.some.inj h
    intro x hx
    rw [List.mem_singleton.mp hx]
    rfl
  · obtain rfl := Option.some.inj h
    exact leaf_sanitizeMembers hvalues hmembers

/-! ### Leaves on the wire -/

/-- The schema knows every name that is sent. -/
theorem names_known :
    (∀ reason ∈ locationReasons, (nativeReasonCode reason).isSome = true) ∧
      (∀ call ∈ statusCalls, (statusName call.1).isSome = true ∧
        (nativeReasonCode call.2).isSome = true) ∧
      ∀ call ∈ siteStatusCalls, (statusName call.1).isSome = true ∧
        (reasonOnWire call.2).isSome = true := by
  decide

/-- The broker reads every leaf, if it reads the ids of the site. -/
theorem onWire_leaf (hsite : (boundedIdSchema 300 (wire siteId)).isSome)
    (hbuild : (nativeBuildIdSchema (wire buildId)).isSome) {node : OutboundNode}
    (h : Leaf siteId buildId node) :
    ∃ w, node.onWire = some w ∧ (serializedNodeSchema nativeUnavailableValueSchema w).isSome := by
  cases node with
  | str v | num v | bool v | redacted => exact ⟨_, rfl, rfl⟩
  | null | obj c => exact h.elim
  | truncated v =>
    obtain rfl : v = "props" := h
    exact ⟨_, rfl, rfl⟩
  | unavailable v =>
    obtain ⟨reason, detail, site, build⟩ := v
    obtain ⟨hreason, rfl, rfl, rfl⟩ : reason ∈ locationReasons ∧ detail = none ∧
      site = some siteId ∧ build = some buildId := h
    obtain ⟨code, hcode⟩ := Option.isSome_iff_exists.mp (names_known.1 reason hreason)
    refine ⟨.unavailable ⟨code, none, some (wire siteId), some (wire buildId)⟩, ?_, ?_⟩
    · unfold OutboundNode.onWire
      rw [hcode]
      rfl
    · rw [serializedNodeSchema, Option.isSome_map, isSome_nativeUnavailableValueSchema,
        isSome_optional, isSome_optional, isSome_optional, Option.all_some, Option.all_some, hsite,
        hbuild]
      rfl

theorem membersOnWire_leaf (hsite : (boundedIdSchema 300 (wire siteId)).isSome)
    (hbuild : (nativeBuildIdSchema (wire buildId)).isSome) {values : List (String × OutboundNode)}
    (h : ∀ x ∈ values, Leaf siteId buildId x.2) :
    ∃ w, membersOnWire values = some w ∧
      (serializedRecordSchema nativeUnavailableValueSchema w).isSome := by
  induction values with
  | nil => exact ⟨[], rfl, rfl⟩
  | cons x rest ih =>
    obtain ⟨node, hnode, hnodeSome⟩ := onWire_leaf hsite hbuild (h x List.mem_cons_self)
    obtain ⟨others, hothers, hothersSome⟩ := ih fun y hy => h y (List.mem_cons_of_mem _ hy)
    refine ⟨(wire x.1, node) :: others, ?_, ?_⟩
    · unfold membersOnWire
      rw [hnode, hothers]
      rfl
    · have hcons : (serializedRecordSchema nativeUnavailableValueSchema
          ((wire x.1, node) :: others)).isSome
            = ((serializedNodeSchema nativeUnavailableValueSchema node).isSome &&
              ((serializedRecordSchema nativeUnavailableValueSchema others).isSome && true)) :=
        isSome_bind_of_const fun _ => isSome_bind_of_const fun _ => rfl
      rw [hcons, hnodeSome, hothersSome]
      rfl

/-! ### Diagnostic details -/

/-- The text of a detail is within the bound of a text, which the schema exceeds. -/
theorem length_sanitizeDiagnosticDetail {detail sanitized : Option String}
    (h : sanitizeDiagnosticDetail {} detail = some sanitized) :
    ∀ d ∈ sanitized, (wire d).length ≤ 4096 := by
  have hbound : ∀ d : String, d.utf8ByteSize ≤ 1024 → (wire d).length ≤ 4096 := fun d hd =>
    (length_wire_le d).trans (hd.trans (by decide))
  cases detail with
  | none =>
    obtain rfl := Option.some.inj h
    exact fun d hd => absurd hd (Option.not_mem_none d)
  | some value =>
    unfold sanitizeDiagnosticDetail at h
    dsimp only at h
    split_ifs at h with h1 h2
    · obtain rfl := Option.some.inj h
      intro d hd
      obtain rfl := Option.some.inj hd
      exact hbound _ (by decide)
    · obtain ⟨r, hr, rfl⟩ := Option.map_eq_some_iff.mp h
      intro d hd
      obtain rfl := Option.some.inj hd
      refine hbound _ ?_
      rw [← String.utf8Len_toList, String.toList_ofList]
      exact utf8Len_truncateBytes hr
    · obtain rfl := Option.some.inj h
      intro d hd
      obtain rfl := Option.some.inj hd
      exact hbound _ (Nat.le_of_not_lt h2)

end

/-! ### What the broker has checked -/

/-- The agent and the instance are registered. -/
structure Registered (agentId : String) (target : DiscoveredInstance) : Prop where
  agent : (agentIdSchema (wire agentId)).isSome
  inst : ∃ registration : NativeInstance, (nativeInstanceSchema registration).isSome ∧
    registration.instanceId = wire target.instanceId ∧ registration.buildId = wire target.buildId

/-- The probe is one the broker has assigned. -/
structure Assigned (definition : ProbeDefinition) (probe : ProbeAssignment) : Prop where
  parsed : probeDefinitionSchema definition = some definition
  id : definition.id = wire probe.id
  version : definition.version = probe.version
  hitLimit : definition.hitLimit = probe.hitLimit

/-- A site of the plan of a probe, which has been attached under some generation. -/
structure FromPlan (definition : ProbeDefinition) (target : DiscoveredInstance)
    (probe : ProbeAssignment) (site : CaptureSite) : Prop where
  file : definition.file = wire site.file
  line : definition.line = site.line
  siteId : ∃ index, site.siteId = physicalSiteId target probe index
  plan : ∃ debug cookie paths planned generation,
    planSite debug probe site.siteId target.buildId cookie paths = .ok planned ∧
      site.toPlannedSite = { planned with generation }

/-- What the agent sends about a probe: for each site of it, when the counter of the
site's dropped events reads `dropped`, and for the probe as a whole. -/
inductive Emitted (codec : Codec) (agentId : String) (target : DiscoveredInstance)
    (probe : ProbeAssignment) (sites : List (CaptureSite × UInt64)) : Report → Prop
  | record {site dropped raw now event} (hsite : (site, dropped) ∈ sites)
      (hnow : (timestampSchema (wire now)).isSome)
      (hevent : decodeRecord codec {} site raw now = .event event) :
      Emitted codec agentId target probe sites (.captured event)
  | counter {site dropped delta now} (hsite : (site, dropped) ∈ sites)
      (hnow : (timestampSchema (wire now)).isSome) (hpos : 0 < delta)
      (hlimit : delta ≤ probe.hitLimit) :
      Emitted codec agentId target probe sites (.counter probe.id probe.version now delta)
  | status {status reason detail now event} (hcall : (status, reason) ∈ statusCalls)
      (hnow : (timestampSchema (wire now)).isSome)
      (hevent : sendStatus {} agentId target probe.id now status (some reason) detail
        (some probe.version) = some event) :
      Emitted codec agentId target probe sites (.status event)
  | siteStatus {site dropped status reason detail count rate counted now event}
      (hsite : (site, dropped) ∈ sites) (hcall : (status, reason) ∈ siteStatusCalls)
      (hcounted : ∀ d ∈ counted, d = dropped) (hnow : (timestampSchema (wire now)).isSome)
      (hevent : sendSiteStatus {} agentId target site now status reason detail count rate counted
        = some event) :
      Emitted codec agentId target probe sites (.status event)

section

variable {agentId : String} {target : DiscoveredInstance} {definition : ProbeDefinition}
variable {probe : ProbeAssignment} {site : CaptureSite}

theorem Registered.instanceId (h : Registered agentId target) :
    (boundedIdSchema 300 (wire target.instanceId)).isSome := by
  obtain ⟨registration, hsome, hinst, -⟩ := h.inst
  obtain ⟨_, hparsed⟩ := Option.isSome_iff_exists.mp hsome
  obtain ⟨instanceId, hinstance, -⟩ := Option.bind_eq_some_iff.mp hparsed
  rw [← hinst]
  exact Option.isSome_iff_exists.mpr ⟨instanceId, hinstance⟩

theorem Registered.buildId (h : Registered agentId target) :
    (nativeBuildIdSchema (wire target.buildId)).isSome := by
  obtain ⟨registration, hsome, -, hbuild⟩ := h.inst
  obtain ⟨_, hparsed⟩ := Option.isSome_iff_exists.mp hsome
  -- the identity, the process and the executable come first
  obtain ⟨_, -, hparsed⟩ := Option.bind_eq_some_iff.mp hparsed
  obtain ⟨_, -, hparsed⟩ := Option.bind_eq_some_iff.mp hparsed
  obtain ⟨_, -, hparsed⟩ := Option.bind_eq_some_iff.mp hparsed
  obtain ⟨_, -, hparsed⟩ := Option.bind_eq_some_iff.mp hparsed
  obtain ⟨_, -, hparsed⟩ := Option.bind_eq_some_iff.mp hparsed
  obtain ⟨_, -, hparsed⟩ := Option.bind_eq_some_iff.mp hparsed
  obtain ⟨_, -, hparsed⟩ := Option.bind_eq_some_iff.mp hparsed
  obtain ⟨buildId, hbuildId, -⟩ := Option.bind_eq_some_iff.mp hparsed
  unfold buildIdSchema lowerHex at hbuildId
  split_ifs at hbuildId with hhex
  rw [← hbuild]
  unfold nativeBuildIdSchema
  rw [isSome_refine, decide_eq_true (⟨hhex.1, hhex.2.1⟩ : _ ∧ _), hhex.2.2]
  rfl

theorem Assigned.fields (h : Assigned definition probe) :
    isProbeId (wire probe.id) = true ∧ (positiveInt probe.version).isSome ∧
      (sourceFileSchema definition.file).isSome ∧ (positiveInt definition.line).isSome ∧
        probe.hitLimit ≤ maxSafeInteger := by
  obtain ⟨_, hcompiled, hparsed⟩ := Option.bind_eq_some_iff.mp h.parsed
  obtain ⟨id, hid, hparsed⟩ := Option.bind_eq_some_iff.mp hparsed
  obtain ⟨version, hversion, -⟩ := Option.bind_eq_some_iff.mp hparsed
  -- the service and the commit come before the file, the conditions before the limit
  obtain ⟨_, -, hcompiled⟩ := Option.bind_eq_some_iff.mp hcompiled
  obtain ⟨_, -, hcompiled⟩ := Option.bind_eq_some_iff.mp hcompiled
  obtain ⟨file, hfile, hcompiled⟩ := Option.bind_eq_some_iff.mp hcompiled
  obtain ⟨line, hline, hcompiled⟩ := Option.bind_eq_some_iff.mp hcompiled
  obtain ⟨_, -, hcompiled⟩ := Option.bind_eq_some_iff.mp hcompiled
  obtain ⟨_, -, hcompiled⟩ := Option.bind_eq_some_iff.mp hcompiled
  obtain ⟨_, -, hcompiled⟩ := Option.bind_eq_some_iff.mp hcompiled
  obtain ⟨_, -, hcompiled⟩ := Option.bind_eq_some_iff.mp hcompiled
  obtain ⟨hitLimit, hhits, -⟩ := Option.bind_eq_some_iff.mp hcompiled
  refine ⟨?_, ?_, ?_, ?_, ?_⟩
  · rw [← h.id]
    exact (refine_eq_some.mp hid).1
  · rw [← h.version]
    exact Option.isSome_iff_exists.mpr ⟨version, hversion⟩
  · exact Option.isSome_iff_exists.mpr ⟨file, hfile⟩
  · exact Option.isSome_iff_exists.mpr ⟨line, hline⟩
  · rw [← h.hitLimit]
    exact (positiveInt_eq_some.mp hhits).1.2

theorem not_isSpace_of_isDigit {c : UInt16} (h : isDigit c = true) : isSpace c = false := by
  refine not_isSpace_of_isHexUnit ?_
  unfold isHexUnit
  rw [h]
  rfl

/-- The id of a site begins with that of its probe and ends with its index. -/
theorem trim_siteId (h : Assigned definition probe) (hsite : FromPlan definition target probe site) :
    trim (wire site.siteId) = wire site.siteId ∧ 1 ≤ (wire site.siteId).length := by
  obtain ⟨index, hindex⟩ := hsite.siteId
  have hsplit : ∃ middle, wire site.siteId = wire probe.id ++ (middle ++ decimal index) := by
    refine ⟨wire ":" ++ (wire (toString probe.version) ++ (wire ":" ++ (wire target.instanceId ++
      (wire ":" ++ (wire target.buildId ++ wire ":"))))), ?_⟩
    rw [hindex, ← wire_toString]
    unfold physicalSiteId
    simp only [wire_append, List.append_assoc]
  obtain ⟨middle, heq⟩ := hsplit
  have hid : (wire probe.id).take 4 = js "prb_" := by
    have hprobe := h.fields.1
    unfold isProbeId at hprobe
    simp only [Bool.and_eq_true, decide_eq_true_eq] at hprobe
    exact hprobe.1.1
  obtain ⟨rest, hrest⟩ : ∃ rest, wire probe.id = 0x70 :: rest := by
    rcases hwire : wire probe.id with - | ⟨c, rest⟩
    · rw [hwire] at hid
      exact absurd hid (by decide)
    · rw [hwire] at hid
      have hc : c = 0x70 := (List.cons.inj hid).1
      exact ⟨rest, by rw [hc]⟩
  obtain ⟨init, last, hlast⟩ : ∃ init last, decimal index = init ++ [last] := by
    have hne : decimal index ≠ [] := (isNumeral_decimal index).1
    exact ⟨_, _, (List.dropLast_append_getLast hne).symm⟩
  refine ⟨trim_of_ends ?_ ?_, ?_⟩
  · rw [heq, hrest]
    intro c hc
    obtain rfl := Option.some.inj hc
    decide
  · rw [heq, hlast, ← List.append_assoc, ← List.append_assoc, List.getLast?_concat]
    intro c hc
    obtain rfl := Option.some.inj hc
    refine not_isSpace_of_isDigit (isDigit_of_mem_decimal (n := index) ?_)
    rw [hlast]
    exact List.mem_append_right _ (List.mem_singleton.mpr rfl)
  · rw [heq, hrest]
    exact Nat.succ_le_succ (Nat.zero_le _)

theorem isSome_siteId (h : Assigned definition probe) (hsite : FromPlan definition target probe site) :
    (boundedIdSchema 300 (wire site.siteId)).isSome = decide ((wire site.siteId).length ≤ 300) := by
  obtain ⟨htrim, hpos⟩ := trim_siteId h hsite
  unfold boundedIdSchema
  rw [isSome_trimmed, htrim]
  exact decide_eq_decide.mpr (and_iff_right hpos)

/-! ### Reports -/

/-- The verdict on a report of an assigned probe is that on its own fields. -/
theorem accepted_eq (h : Assigned definition probe) {report : Report} {now : String}
    {body : EventBody} (hnow : (timestampSchema (wire now)).isSome)
    (hwire : report.onWire = some ⟨wire probe.id, some probe.version, wire now, body⟩) :
    report.accepted
      = (eventBodySchema nativeUnavailableValueSchema sourceFileSchema body).isSome := by
  unfold Report.accepted
  rw [hwire, Option.bind_some]
  exact isSome_nativeProbeEventSchema body h.fields.1 h.fields.2.1 hnow

theorem FromPlan.probe_eq (hsite : FromPlan definition target probe site) : site.probe = probe := by
  obtain ⟨debug, cookie, paths, planned, generation, hplan, hto⟩ := hsite.plan
  have hprobe : site.probe = planned.probe := by rw [hto]
  rw [hprobe]
  unfold planSite at hplan
  rcases hcount : validateCapturePathCount paths.length with message | ⟨⟩ <;> rw [hcount] at hplan
  · cases hplan
  · simp only [Except.bind, bind] at hplan
    split at hplan
    · cases hplan
    · obtain rfl := Except.ok.inj hplan
      rfl

theorem FromPlan.leaf_unavailable (hsite : FromPlan definition target probe site) :
    ∀ y ∈ site.unavailable, Leaf site.siteId target.buildId y.2.outbound := by
  obtain ⟨debug, cookie, paths, planned, generation, hplan, hto⟩ := hsite.plan
  have hsites : site.unavailable = planned.unavailable := by rw [hto]
  rw [hsites]
  unfold planSite at hplan
  rcases hcount : validateCapturePathCount paths.length with message | ⟨⟩ <;> rw [hcount] at hplan
  · cases hplan
  · simp only [Except.bind, bind] at hplan
    split at hplan
    · cases hplan
    · obtain rfl := Except.ok.inj hplan
      intro y hy
      obtain ⟨⟨path, error⟩, -, rfl⟩ := List.mem_map.mp hy
      exact ⟨reasonCode_mem error, rfl, rfl, rfl⟩

/-- The events of records: their values are leaves, and a log is within the budget of an event. -/
theorem event_of_decodeRecord {codec : Codec} {raw : RawEvent} {now : String} {event : NativeEvent}
    (hsite : FromPlan definition target probe site)
    (h : decodeRecord codec {} site raw now = .event event) :
    (∃ captured watches, event = .snapshot probe.id probe.version now (.obj captured) watches ∧
      (∀ x ∈ captured, Leaf site.siteId target.buildId x.2) ∧
        ∀ x ∈ watches, Leaf site.siteId target.buildId x.2) ∨
    (∃ message, event = .log probe.id probe.version now message "info" ∧
      codec.eventSize event ≤ 65536) ∨
    ∃ v, event = .metric probe.id probe.version now 1 v v v v := by
  unfold decodeRecord at h
  rcases hdecoded : decodeEvent site.toPlannedSite raw with message | decoded <;> rw [hdecoded] at h
  · cases h
  · dsimp only at h
    split_ifs at h with hpass
    rcases hpaths : outboundPaths site with message | paths <;> rw [hpaths] at h
    · cases h
    · dsimp only at h
      have hleaf := leaf_rawValues (leaf_decodeEvent hsite.leaf_unavailable hdecoded)
      rcases hvalues : sanitizeValues codec {} ((rawValues decoded).filter fun value =>
        value.1 ∈ paths) with - | values <;> rw [hvalues] at h
      · cases h
      · have hsent := leaf_sanitizeValues
          (fun x hx => hleaf x (List.mem_of_mem_filter hx)) hvalues
        dsimp only at h
        rcases hevent : siteEvent codec {} site values now with event' | - | message | - <;>
          rw [hevent] at h <;> unfold withinBudget at h
        · dsimp only at h
          split_ifs at h with hsize
          obtain rfl := Decoded.event.inj h
          unfold siteEvent at hevent
          rw [hsite.probe_eq] at hevent
          by_cases h1 : probe.kind = "snapshot"
          · rw [if_pos h1] at hevent
            rcases hroots : sanitizeRoots codec {} values with - | captured <;>
              rw [hroots] at hevent
            · cases hevent
            · obtain ⟨children, hchildren, rfl⟩ := Option.map_eq_some_iff.mp hroots
              refine Or.inl ⟨children, values, (Decoded.event.inj hevent).symm, ?_, hsent⟩
              exact leaf_sanitizeValues hsent hchildren
          · rw [if_neg h1] at hevent
            by_cases h2 : probe.kind = "log"
            · rw [if_pos h2] at hevent
              exact Or.inr (Or.inl ⟨_, (Decoded.event.inj hevent).symm, hsize⟩)
            · rw [if_neg h2] at hevent
              by_cases h3 : probe.kind = "metric"
              · rw [if_pos h3] at hevent
                split at hevent
                · rename_i v _
                  exact Or.inr (Or.inr ⟨v, (Decoded.event.inj hevent).symm⟩)
                · cases hevent
              · rw [if_neg h3] at hevent
                split_ifs at hevent
        · cases h
        · cases h
        · cases h

theorem accepted_record {codec : Codec} {raw : RawEvent} {now : String} {event : NativeEvent}
    (hcodec : ∀ probeId probeVersion ts message level,
      message.utf8ByteSize ≤ codec.eventSize (.log probeId probeVersion ts message level))
    (hreg : Registered agentId target) (h : Assigned definition probe)
    (hsite : FromPlan definition target probe site) (hnow : (timestampSchema (wire now)).isSome)
    (hfits : (wire site.siteId).length ≤ 300)
    (hevent : decodeRecord codec {} site raw now = .event event) :
    (Report.captured event).accepted = true := by
  have hid : (boundedIdSchema 300 (wire site.siteId)).isSome = true :=
    (isSome_siteId h hsite).trans (decide_eq_true hfits)
  rcases event_of_decodeRecord hsite hevent with
    ⟨captured, watches, rfl, hcaptured, hwatches⟩ | ⟨message, rfl, hsize⟩ | ⟨v, rfl⟩
  · obtain ⟨c, hc, hcSome⟩ := membersOnWire_leaf hid hreg.buildId hcaptured
    obtain ⟨w, hw, hwSome⟩ := membersOnWire_leaf hid hreg.buildId hwatches
    have hwire : (Report.captured (.snapshot probe.id probe.version now (.obj captured)
        watches)).onWire
          = some ⟨wire probe.id, some probe.version, wire now, .snapshot (.obj c false) w []⟩ := by
      unfold Report.onWire NativeEvent.onWire OutboundNode.onWire
      dsimp only
      rw [hc, hw]
      rfl
    have hbody : (eventBodySchema nativeUnavailableValueSchema sourceFileSchema
        (.snapshot (.obj c false) w [])).isSome
          = ((serializedNodeSchema nativeUnavailableValueSchema (.obj c false)).isSome &&
            ((serializedRecordSchema nativeUnavailableValueSchema w).isSome && true)) :=
      isSome_bind_of_const fun _ => isSome_bind_of_const fun _ => rfl
    rw [accepted_eq h hnow hwire, hbody, serializedNodeSchema, Option.isSome_map, hcSome, hwSome]
    rfl
  · have hwire : (Report.captured (.log probe.id probe.version now message "info")).onWire
        = some ⟨wire probe.id, some probe.version, wire now, .log (wire message) .info⟩ := rfl
    have hbody : (eventBodySchema nativeUnavailableValueSchema sourceFileSchema
        (.log (wire message) .info)).isSome = ((text 0 65536 (wire message)).isSome && true) :=
      isSome_bind_of_const fun _ => rfl
    have hlength : (wire message).length ≤ 65536 :=
      (length_wire_le message).trans ((hcodec _ _ _ _ _).trans hsize)
    rw [accepted_eq h hnow hwire, hbody, text, isSome_refine,
      decide_eq_true (⟨Nat.zero_le _, hlength⟩ : _ ∧ _)]
    rfl
  · have hwire : (Report.captured (.metric probe.id probe.version now 1 v v v v)).onWire
        = some ⟨wire probe.id, some probe.version, wire now, .metric 1 v v v v⟩ := rfl
    rw [accepted_eq h hnow hwire, eventBodySchema]
    have hone : positiveInt 1 = some 1 :=
      positiveInt_eq_some.mpr ⟨⟨le_refl 1, by unfold maxSafeInteger; omega⟩, rfl⟩
    rw [hone, Option.bind_eq_bind, Option.bind_some, if_pos (le_refl _)]
    rfl

theorem accepted_counter (h : Assigned definition probe) {now : String} {delta : ℕ}
    (hnow : (timestampSchema (wire now)).isSome) (hpos : 0 < delta) (hlimit : delta ≤ probe.hitLimit) :
    (Report.counter probe.id probe.version now delta).accepted = true := by
  have hdelta : positiveInt delta = some delta :=
    positiveInt_eq_some.mpr ⟨⟨hpos, hlimit.trans h.fields.2.2.2.2⟩, rfl⟩
  rw [accepted_eq h hnow rfl, eventBodySchema, hdelta]
  rfl

/-- A status with a known name and reason is accepted when its metadata are. -/
theorem accepted_status (h : Assigned definition probe) {event : StatusEvent}
    {name : ProbeStatusName} {reason : Option NativeReasonCode}
    (hnow : (timestampSchema (wire event.ts)).isSome) (hid : event.probeId = probe.id)
    (hversion : event.probeVersion = probe.version) (hname : statusName event.status = some name)
    (hreason : reasonOnWire event.reasonCode = some reason)
    (hdetail : ∀ d ∈ event.detail, (wire d).length ≤ 4096) :
    (Report.status event).accepted = (nativeStatusMetadataSchema (event.metadata reason)).isSome := by
  have hwire : (Report.status event).onWire = some ⟨wire probe.id, some probe.version, wire event.ts,
      .status name (event.detail.map wire) (event.metadata reason)⟩ := by
    unfold Report.onWire StatusEvent.onWire
    dsimp only
    rw [hname, hreason, hid, hversion]
    rfl
  have hbody : (eventBodySchema nativeUnavailableValueSchema sourceFileSchema
      (.status name (event.detail.map wire) (event.metadata reason))).isSome
        = ((optional (text 0 4096) (event.detail.map wire)).isSome &&
          ((nativeStatusMetadataSchema (event.metadata reason)).isSome && true)) :=
    isSome_bind_of_const fun _ => isSome_bind_of_const fun _ => rfl
  have htext : (optional (text 0 4096) (event.detail.map wire)).isSome = true := by
    rw [isSome_optional]
    rcases hd : event.detail with - | d
    · rfl
    · exact (isSome_refine _ _).trans (decide_eq_true ⟨Nat.zero_le _, hdetail d hd⟩)
  rw [accepted_eq h hnow hwire, hbody, htext, Bool.true_and, Bool.and_true]

theorem accepted_sendStatus (hreg : Registered agentId target) (h : Assigned definition probe)
    {call : String × String} {detail : Option String} {now : String} {event : StatusEvent}
    (hcall : call ∈ statusCalls) (hnow : (timestampSchema (wire now)).isSome)
    (hevent : sendStatus {} agentId target probe.id now call.1 (some call.2) detail
      (some probe.version) = some event) : (Report.status event).accepted = true := by
  obtain ⟨sanitized, hdetail, heq⟩ := Option.map_eq_some_iff.mp hevent
  obtain ⟨name, hname⟩ := Option.isSome_iff_exists.mp (names_known.2.1 call hcall).1
  obtain ⟨reason, hreason⟩ := Option.isSome_iff_exists.mp (names_known.2.1 call hcall).2
  have hsome : reasonOnWire (some call.2) = some (some reason) := by
    unfold reasonOnWire
    dsimp only
    rw [hreason]
    rfl
  have hstatus : (Report.status event).accepted
      = (nativeStatusMetadataSchema (event.metadata (some reason))).isSome := by
    subst heq
    exact accepted_status h hnow rfl rfl hname hsome (length_sanitizeDiagnosticDetail hdetail)
  rw [hstatus, isSome_nativeStatusMetadataSchema, ← heq]
  have hagent : (boundedIdSchema 200 (wire agentId)).isSome = true := hreg.agent
  simp only [StatusEvent.metadata, isSome_optional, Option.all_some, Option.all_none,
    Option.map_none, hagent, hreg.instanceId, hreg.buildId, Bool.and_true]

/-- A status of a site is accepted when its id and its counter fit. -/
theorem accepted_sendSiteStatus (hreg : Registered agentId target) (h : Assigned definition probe)
    (hsite : FromPlan definition target probe site) {call : String × Option String}
    {detail : Option String} {now : String} {count : Option UInt32} {rate : Option ℚ≥0}
    {dropped : Option UInt64} {event : StatusEvent} (hcall : call ∈ siteStatusCalls)
    (hnow : (timestampSchema (wire now)).isSome)
    (hevent : sendSiteStatus {} agentId target site now call.1 call.2 detail count rate dropped
      = some event) :
    (Report.status event).accepted = (decide ((wire site.siteId).length ≤ 300) &&
      dropped.all fun d => decide (d.toNat ≤ maxSafeInteger)) := by
  obtain ⟨sanitized, hdetail, heq⟩ := Option.map_eq_some_iff.mp hevent
  obtain ⟨name, hname⟩ := Option.isSome_iff_exists.mp (names_known.2.2 call hcall).1
  obtain ⟨reason, hreason⟩ := Option.isSome_iff_exists.mp (names_known.2.2 call hcall).2
  have hprobe := hsite.probe_eq
  have hstatus : (Report.status event).accepted
      = (nativeStatusMetadataSchema (event.metadata reason)).isSome := by
    subst heq
    exact accepted_status h hnow (congrArg ProbeAssignment.id hprobe)
      (congrArg ProbeAssignment.version hprobe) hname hreason
      (length_sanitizeDiagnosticDetail hdetail)
  rw [hstatus, isSome_nativeStatusMetadataSchema, ← heq]
  have hagent : (boundedIdSchema 200 (wire agentId)).isSome = true := hreg.agent
  have hword : ∀ n : UInt32, (nonnegativeInt n.toNat).isSome = true := fun n => by
    have hlt := n.toNat_lt
    rw [isSome_nonnegativeInt, decide_eq_true_eq]
    unfold maxSafeInteger
    omega
  have hcount : (count.map UInt32.toNat).all (fun n => (nonnegativeInt n).isSome) = true := by
    cases count with
    | none => rfl
    | some n => exact hword n
  have hrate : (rate.map fun r : ℚ≥0 => (r : ℚ)).all (fun r => (nonnegativeNumber r).isSome)
      = true := by
    cases rate with
    | none => rfl
    | some r =>
      show (nonnegativeNumber (r : ℚ)).isSome = true
      exact (isSome_refine _ _).trans (decide_eq_true r.2)
  have hdropped : (dropped.map UInt64.toNat).all (fun n => (nonnegativeInt n).isSome)
      = dropped.all fun d => decide (d.toNat ≤ maxSafeInteger) := by
    cases dropped with
    | none => rfl
    | some d => exact isSome_nonnegativeInt d.toNat
  have hresolution : (sourceFileSchema (wire site.file)).isSome = true ∧
      (positiveInt site.line).isSome = true := by
    rw [← hsite.file, ← hsite.line]
    exact ⟨h.fields.2.2.1, h.fields.2.2.2.1⟩
  simp only [StatusEvent.metadata, ResolutionStatus.onWire, isSome_optional, Option.all_some,
    Option.all_none, Option.map_some, isSome_resolutionSchema, hagent, hreg.instanceId,
    hreg.buildId, isSome_siteId h hsite, hresolution, hword, hcount, hrate, hdropped,
    Bool.and_true, Bool.true_and]

/-- Every attached site reports its counters when its supervisor starts. -/
theorem exists_armed {codec : Codec} {sites : List (CaptureSite × UInt64)} {dropped : UInt64}
    (hreg : Registered agentId target) (h : Assigned definition probe)
    (hsite : FromPlan definition target probe site) (hmem : (site, dropped) ∈ sites) :
    ∃ report, Emitted codec agentId target probe sites report ∧
      report.accepted = (decide ((wire site.siteId).length ≤ 300) &&
        decide (dropped.toNat ≤ maxSafeInteger)) := by
  have hcall : ("armed", none) ∈ siteStatusCalls := List.mem_cons_self
  obtain ⟨hnow, hdetail⟩ : (timestampSchema (wire "2026-01-01T00:00:00Z")).isSome = true ∧
      sanitizeDiagnosticDetail {} (some "raw-hit safety supervisor initialized")
        = some (some "raw-hit safety supervisor initialized") := by
    decide
  obtain ⟨event, hevent⟩ : ∃ event, sendSiteStatus {} agentId target site "2026-01-01T00:00:00Z"
      "armed" none (some "raw-hit safety supervisor initialized") (some 1) (some 0) (some dropped)
        = some event := by
    unfold sendSiteStatus
    rw [hdetail]
    exact ⟨_, rfl⟩
  exact ⟨_, .siteStatus hmem hcall (fun d hd => (Option.some.inj hd).symm) hnow hevent,
    accepted_sendSiteStatus hreg h hsite hcall hnow hevent⟩

/-- Whatever is sent about a probe is accepted if and only if the ids of its sites and the
counters of their dropped events fit the schema. -/
theorem reports_accepted_iff {codec : Codec} {sites : List (CaptureSite × UInt64)}
    (hcodec : ∀ probeId probeVersion ts message level,
      message.utf8ByteSize ≤ codec.eventSize (.log probeId probeVersion ts message level))
    (hreg : Registered agentId target) (h : Assigned definition probe)
    (hsites : ∀ s ∈ sites, FromPlan definition target probe s.1) :
    (∀ report, Emitted codec agentId target probe sites report → report.accepted = true) ↔
      ∀ s ∈ sites, (wire s.1.siteId).length ≤ 300 ∧ s.2.toNat ≤ maxSafeInteger := by
  constructor
  · rintro haccepted ⟨site, dropped⟩ hmem
    obtain ⟨report, hreport, hverdict⟩ := exists_armed hreg h (hsites _ hmem) hmem
    rw [haccepted report hreport, eq_comm, Bool.and_eq_true, decide_eq_true_eq,
      decide_eq_true_eq] at hverdict
    exact hverdict
  · intro hfits report hreport
    cases hreport with
    | record hsite hnow hevent =>
      exact accepted_record hcodec hreg h (hsites _ hsite) hnow (hfits _ hsite).1 hevent
    | counter hsite hnow hpos hlimit => exact accepted_counter h hnow hpos hlimit
    | status hcall hnow hevent => exact accepted_sendStatus hreg h hcall hnow hevent
    | @siteStatus site dropped status reason detail count rate counted now event hsite hcall hcounted
        hnow hevent =>
      rw [accepted_sendSiteStatus hreg h (hsites _ hsite) hcall hnow hevent,
        decide_eq_true (hfits _ hsite).1, Bool.true_and, Option.all_eq_true]
      intro d hd
      rw [hcounted d hd]
      exact decide_eq_true (hfits _ hsite).2

end

/-! ### A log at a line -/

/-- The bytes of a text in JSON. -/
def jsonTextSize (s : String) : ℕ :=
  2 + (s.toList.map fun c =>
    if c ∈ ['"', '\\', '\n', '\r', '\t', '\x08', '\x0C'] then 2
    else if c.toNat < 0x20 then 6 else c.utf8Size).sum

/-- Sizes of the logs of a site without paths. -/
def logCodec : Codec where
  numberText z := toString z
  membersSize _ := 2
  eventSize event :=
    match event with
    | .log probeId probeVersion ts message level =>
      67 + jsonTextSize probeId + (toString probeVersion).length + jsonTextSize ts +
        jsonTextSize message + jsonTextSize level
    | _ => 0

theorem utf8Len_le_jsonTextSize (s : String) : s.utf8ByteSize ≤ jsonTextSize s := by
  have hsum : ∀ l : List Char, String.utf8Len l ≤ (l.map fun c =>
      if c ∈ ['"', '\\', '\n', '\r', '\t', '\x08', '\x0C'] then 2
      else if c.toNat < 0x20 then 6 else c.utf8Size).sum := by
    intro l
    induction l with
    | nil => exact Nat.le_refl _
    | cons c l ih =>
      have hsmall : ∀ c ∈ ['"', '\\', '\n', '\r', '\t', '\x08', '\x0C'], c.utf8Size ≤ 2 := by
        intro c hc
        simp only [List.mem_cons, List.not_mem_nil, or_false] at hc
        rcases hc with rfl | rfl | rfl | rfl | rfl | rfl | rfl <;> decide
      have hlarge := c.utf8Size_le_four
      rw [String.utf8Len_cons, List.map_cons, List.sum_cons]
      split_ifs with h1 h2
      · have := hsmall c h1
        omega
      · omega
      · omega
  rw [← String.utf8Len_toList]
  exact (hsum s.toList).trans (Nat.le_add_left _ _)

def logProbe : ProbeAssignment where
  id := "prb_01ARZ3NDEKTSV4RRFFQ69G5FAV"
  version := 1
  kind := "log"
  hitLimit := 1
  ttlSeconds := 60
  conditional := false

def logDefinition : ProbeDefinition where
  serviceId := js "orders"
  sourceCommit := none
  file := wire "src/main.rs"
  line := 3
  condition := none
  conditionExpression := none
  ttlSeconds := 60
  createdBy := js "operator"
  hitLimit := 1
  body := .log (js "reached") .info none
  id := wire "prb_01ARZ3NDEKTSV4RRFFQ69G5FAV"
  version := 1
  runtimeLocation := none
  runtimeLine := none
  runtimeColumn := none

/-- The process 4711 of a service, with a build id of 64 digits. -/
def processOf (serviceId : String) : DiscoveredInstance where
  instanceId := serviceId ++ "-4711-123456"
  serviceId := serviceId
  buildId := String.ofList (List.replicate 64 'a')
  pid := 4711

def logSite (target : DiscoveredInstance) : CaptureSite where
  probe := logProbe
  siteId := physicalSiteId target logProbe 0
  cookie := 7
  generation := 1
  operations := []
  slotPaths := []
  slotKinds := []
  unavailable := []
  file := "src/main.rs"
  line := 3
  condition := none
  watchPaths := none
  template := some "reached"
  metricPath := none
  conditional_eq := rfl

/-- The units of a service's name. -/
def nameUnits (name : List Char) : JsString := name.flatMap fun c => pointUnits c.toNat

/-- The registration of a process, in units. -/
def registrationOf (name : List Char) : NativeInstance where
  instanceId := nameUnits name ++ wire "-4711-123456"
  serviceId := nameUnits name
  language := .rust
  pid := 4711
  processStartTime := js "123456"
  executablePath := js "/usr/bin/orders"
  executableDevice := none
  executableInode := none
  buildId := List.replicate 64 0x61
  capabilities := none
  cgroup := none
  containerId := none
  lastSeen := js "2026-01-01T00:00:00Z"

theorem wire_processOf (name : List Char) :
    wire (processOf (String.ofList name)).instanceId = (registrationOf name).instanceId ∧
      wire (processOf (String.ofList name)).buildId = (registrationOf name).buildId := by
  constructor
  · show wire (String.ofList name ++ "-4711-123456") = _
    rw [wire_append, wire_ofList]
    rfl
  · show wire (String.ofList (List.replicate 64 'a')) = _
    rw [wire_ofList]
    rfl

def longName : List Char := List.replicate 200 's'

def shortName : List Char := ['o', 'r', 'd', 'e', 'r', 's']

set_option maxRecDepth 1000 in
/-- What the schemas say of the texts. -/
theorem texts_accepted :
    (agentIdSchema (wire "agent")).isSome = true ∧
      (nativeInstanceSchema (registrationOf longName)).isSome = true ∧
      (nativeInstanceSchema (registrationOf shortName)).isSome = true ∧
      probeDefinitionSchema logDefinition = some logDefinition ∧
        (nameUnits longName).length = 200 := by
  decide

theorem registered_processOf {name : List Char}
    (h : (nativeInstanceSchema (registrationOf name)).isSome) :
    Registered "agent" (processOf (String.ofList name)) where
  agent := texts_accepted.1
  inst := ⟨_, h, (wire_processOf name).1.symm, (wire_processOf name).2.symm⟩

theorem assigned_logProbe : Assigned logDefinition logProbe where
  parsed := texts_accepted.2.2.2.1
  id := rfl
  version := rfl
  hitLimit := rfl

theorem planned_logSite (target : DiscoveredInstance) :
    FromPlan logDefinition target logProbe (logSite target) where
  file := rfl
  line := rfl
  siteId := ⟨0, rfl⟩
  plan := ⟨fun _ => .error .optimizedOut, 7, [], _, 1, rfl, rfl⟩

/-- The id of the site has the name, its 12 further characters and 100 of the other parts. -/
theorem length_siteId (name : List Char) :
    (wire (logSite (processOf (String.ofList name))).siteId).length
      = (nameUnits name).length + 112 := by
  obtain ⟨hinstance, hbuild⟩ := wire_processOf name
  show (wire (physicalSiteId (processOf (String.ofList name)) logProbe 0)).length = _
  unfold physicalSiteId
  simp only [wire_append, List.length_append]
  rw [hinstance, hbuild]
  have hparts : (wire logProbe.id).length = 30 ∧ (wire ":").length = 1 ∧
      (wire (toString logProbe.version)).length = 1 ∧ (wire (toString 0)).length = 1 ∧
        (wire "-4711-123456").length = 12 := by
    decide
  obtain ⟨hid, hcolon, hversion, hindex, htail⟩ := hparts
  rw [hid, hcolon, hversion, hindex]
  unfold registrationOf
  dsimp only
  rw [List.length_append, List.length_replicate, htail]
  omega

/-- The name of a service may have 200 characters, and then its site ids are too long. -/
theorem longName_rejected :
    let target := processOf (String.ofList longName)
    Registered "agent" target ∧ Assigned logDefinition logProbe ∧
      FromPlan logDefinition target logProbe (logSite target) ∧
        ∃ report, Emitted logCodec "agent" target logProbe [(logSite target, 0)] report ∧
          report.accepted = false := by
  intro target
  have hreg : Registered "agent" target := registered_processOf texts_accepted.2.1
  have hlong : decide ((wire (logSite target).siteId).length ≤ 300) = false := by
    rw [length_siteId, texts_accepted.2.2.2.2]
    rfl
  have hmem : (logSite target, (0 : UInt64)) ∈ [(logSite target, 0)] := List.mem_singleton.mpr rfl
  obtain ⟨report, hreport, hverdict⟩ :=
    exists_armed hreg assigned_logProbe (planned_logSite target) hmem
  rw [hlong, Bool.false_and] at hverdict
  exact ⟨hreg, assigned_logProbe, planned_logSite target, report, hreport, hverdict⟩

/-- Whatever is sent about a log of a service with a short name is accepted. -/
theorem shortName_accepted :
    let target := processOf (String.ofList shortName)
    ∀ report, Emitted logCodec "agent" target logProbe [(logSite target, 0)] report →
      report.accepted = true := by
  intro target
  refine (reports_accepted_iff (fun _ _ _ message _ => ?_)
    (registered_processOf texts_accepted.2.2.1) assigned_logProbe ?_).mpr ?_
  · have := utf8Len_le_jsonTextSize message
    show message.utf8ByteSize ≤ _
    unfold logCodec
    dsimp only
    omega
  · intro s hs
    rw [List.mem_singleton.mp hs]
    exact planned_logSite target
  · intro s hs
    rw [List.mem_singleton.mp hs, length_siteId]
    exact ⟨by decide, Nat.zero_le _⟩

end NativeAgent
