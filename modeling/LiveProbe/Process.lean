/-
LiveProbe/Process.lean

A broker process over its life: requests, sweeps of the TTL timer, snapshots
that are taken, and snapshots that are loaded again, by a rollback into the
running broker or by a restart into a fresh one.

A snapshot that is loaded was saved from an earlier state of the process, so an
invariant that survives writing and reading holds throughout
(`Process.invariant_since`).
-/
import LiveProbe.Restore
import LiveProbe.Transition

open JsString BrokerState

/-- A broker and the snapshots taken of it, latest first. -/
structure Process where
  state : BrokerState := {}
  saved : List BrokerSnapshot := []

inductive ProcessEvent
  | request (now : ℕ) (scope : ResourceScope) (r : Request)
  | sweep (now : ℕ)
  /-- `snapshot`; when its schema throws there is none. -/
  | save (now : ℕ)
  /-- `loadSnapshot` of a snapshot taken before. -/
  | load (now index : ℕ)
  /-- A fresh broker loads a snapshot taken before. -/
  | restart (now index : ℕ)

/-- What runs on the mutation queue. -/
inductive QueueTask
  | request (scope : ResourceScope) (r : Request)
  | sweep

/-- The state a task leaves, and whether it calls the store.  A method that
throws does not, nor does a sweep that found nothing due. -/
def QueueTask.run (cfg : Config) (now : ℕ) (s : BrokerState) : QueueTask → BrokerState × Bool
  | request scope r => ((s.handle cfg now scope r).1, (s.handle cfg now scope r).2.returned)
  | sweep => (s.expireDueProbes cfg now, decide (0 < s.dueCount now))

/-- The state a task leaves that runs at a clock value. -/
def QueueTask.next (cfg : Config) (s : BrokerState) (a : ℕ × QueueTask) : BrokerState :=
  (a.2.run cfg a.1 s).1

namespace Process

variable {cfg : Config} {L : Limits}

def next (cfg : Config) (p : Process) : ProcessEvent → Process
  | .request now scope r => { p with state := (p.state.handle cfg now scope r).1 }
  | .sweep now => { p with state := p.state.expireDueProbes cfg now }
  | .save now => { p with saved := (p.state.snapshot now).toList ++ p.saved }
  | .load now index =>
    match p.saved[index]? with
    | none => p
    | some b => { p with state := (p.state.loadSnapshot cfg now b).1 }
  | .restart now index =>
    match p.saved[index]? with
    | none => p
    | some b => { p with state := (({} : BrokerState).loadSnapshot cfg now b).1 }

/-- The requests have passed the schemas of their routes. -/
def Valid : ProcessEvent → Prop
  | .request _ _ r => r.Valid
  | _ => True

/-- The event is within the limits. -/
def Within (L : Limits) : ProcessEvent → Prop
  | .request now scope r => L.Admits now scope r
  | .sweep now | .load now _ | .restart now _ => L.clock now
  | .save _ => True

theorem within_schemas (e : ProcessEvent) : Within Limits.schemas e := by
  cases e with
  | request now scope r => exact Limits.schemas_admits now scope r
  | _ => trivial

/-- What holds of a state, is kept by requests and sweeps and by loading a
snapshot of a state it holds of, holds from then on. -/
theorem invariant_since {I : BrokerState → Prop} {ok : Process → ProcessEvent → Prop}
    {s₀ : BrokerState} (base : I s₀)
    (request : ∀ p now scope r, I p.state → ok p (.request now scope r) →
      I (p.state.handle cfg now scope r).1)
    (sweep : ∀ p now, I p.state → ok p (.sweep now) → I (p.state.expireDueProbes cfg now))
    (load : ∀ p e now, (∃ index, e = .load now index ∨ e = .restart now index) → ok p e →
      ∀ (s t : BrokerState) b n, I s → s.snapshot n = some b → I (t.loadSnapshot cfg now b).1)
    {p : Process} (h : Reached (next cfg) ok ⟨s₀, []⟩ p) : I p.state := by
  refine (h.invariant (I := fun p => I p.state ∧ ∀ b ∈ p.saved, ∃ s n, I s ∧ s.snapshot n = some b)
    ⟨base, by simp⟩ fun p e ⟨hs, hb⟩ hok => ?_).1
  cases e with
  | request now scope r => exact ⟨request p now scope r hs hok, hb⟩
  | sweep now => exact ⟨sweep p now hs hok, hb⟩
  | save now =>
    refine ⟨hs, fun b hmem => ?_⟩
    rcases List.mem_append.mp hmem with hmem | hmem
    · exact ⟨p.state, now, hs, by simpa using hmem⟩
    · exact hb b hmem
  | load now index =>
    simp only [next]
    rcases hg : p.saved[index]? with - | b
    · exact ⟨hs, hb⟩
    · obtain ⟨s, n, hI, hsnap⟩ := hb b (List.mem_of_getElem? hg)
      exact ⟨load p _ now ⟨index, Or.inl rfl⟩ hok s p.state b n hI hsnap, hb⟩
  | restart now index =>
    simp only [next]
    rcases hg : p.saved[index]? with - | b
    · exact ⟨hs, hb⟩
    · obtain ⟨s, n, hI, hsnap⟩ := hb b (List.mem_of_getElem? hg)
      exact ⟨load p _ now ⟨index, Or.inr rfl⟩ hok s {} b n hI hsnap, hb⟩

/-- **A process within the limits is indexed and holds records within them.** -/
theorem records {p : Process} (h : Reached (next cfg) (fun _ e => Valid e ∧ Within L e) {} p) :
    Indexed p.state ∧ Records cfg L p.state := by
  refine invariant_since (I := fun s => Indexed s ∧ Records cfg L s) ⟨.init, .init⟩ ?_ ?_ ?_ h
  · exact fun p now scope r ⟨hi, hr⟩ ⟨hv, hL⟩ => ⟨hi.handle hv, hr.handle hi hv hL⟩
  · exact fun p now ⟨hi, hr⟩ ⟨_, hc⟩ => ⟨hi.expireDueProbes, hr.expireDueProbes hi hc⟩
  · intro p e now he ⟨_, hL⟩ s t b n ⟨hi, hr⟩ hb
    have hc : L.clock now := by
      obtain ⟨index, rfl | rfl⟩ := he <;> exact hL
    refine ⟨?_, hr.loadSnapshot t hi hb hc⟩
    rw [loadSnapshot_of_snapshot hb]
    exact (Indexed.refill (Broker.snapshotSchema_eq_some.mp hb)).expireDueProbes

/-- Every process holds records that passed their schemas. -/
theorem records_of_valid {p : Process} (h : Reached (next cfg) (fun _ e => Valid e) {} p) :
    Indexed p.state ∧ Records cfg .schemas p.state :=
  records (h.mono fun _ e hv => ⟨hv, within_schemas e⟩)

end Process

/-! ### A process with a probe -/

namespace Sample

/-- A process in which the first counter was created. -/
def created : Process :=
  Process.next config {} (.request 0 scope (.createProbe (draw '1') (counter 1)))

theorem created_reached :
    Reached (Process.next config) (fun _ e => Process.Valid e) {} created :=
  Reached.init.step _ (counter_valid 1 (by simp))

end Sample
