/-
LiveProbe/History.lean

A process that remembers.

Some properties of a broker speak of its past: what was accepted first, what
was uploaded since a lease was taken.  A `History` is a process with a memory
beside the state that every request adds to.  A snapshot is kept with the
memory of its time, and loading it brings both back, so an invariant may relate
the state to the memory (`History.invariant_since`).  Without its memory a
history is a process (`History.process_next`).
-/
import LiveProbe.Process

open BrokerState

/-- A broker, what is remembered of its requests, and its snapshots with what
was remembered when they were taken. -/
structure History (M : Type) where
  state : BrokerState := {}
  memory : M
  saved : List (BrokerSnapshot × M) := []

namespace History

variable {M : Type} {cfg : Config}
  {remember : ℕ → ResourceScope → Request → BrokerState → M → M}

def next (cfg : Config) (remember : ℕ → ResourceScope → Request → BrokerState → M → M)
    (p : History M) : ProcessEvent → History M
  | .request now scope r =>
    { p with
      state := (p.state.handle cfg now scope r).1
      memory := remember now scope r p.state p.memory }
  | .sweep now => { p with state := p.state.expireDueProbes cfg now }
  | .save now =>
    { p with saved := (p.state.snapshot now).toList.map (fun b => (b, p.memory)) ++ p.saved }
  | .load now index =>
    match p.saved[index]? with
    | none => p
    | some (b, m) => { p with state := (p.state.loadSnapshot cfg now b).1, memory := m }
  | .restart now index =>
    match p.saved[index]? with
    | none => p
    | some (b, m) => { p with state := (({} : BrokerState).loadSnapshot cfg now b).1, memory := m }

/-- The process, its memory forgotten. -/
def process (p : History M) : Process := ⟨p.state, p.saved.map Prod.fst⟩

/-- The memory has no say in what the process does. -/
theorem process_next (p : History M) (e : ProcessEvent) :
    (next cfg remember p e).process = Process.next cfg p.process e := by
  cases e with
  | request now scope r => rfl
  | sweep now => rfl
  | save now =>
    simp only [next, Process.next, process, List.map_append, List.map_map]
    exact congrArg (fun l => Process.mk p.state (l ++ _)) (List.map_id _)
  | load now index =>
    simp only [next, Process.next, process, List.getElem?_map]
    rcases p.saved[index]? with - | ⟨b, m⟩ <;> rfl
  | restart now index =>
    simp only [next, Process.next, process, List.getElem?_map]
    rcases p.saved[index]? with - | ⟨b, m⟩ <;> rfl

/-- What holds of a state and a memory, is kept by requests and sweeps and by
loading a snapshot with the memory it was saved with, holds from then on. -/
theorem invariant_since {I : BrokerState → M → Prop} {ok : History M → ProcessEvent → Prop}
    {s₀ : BrokerState} {m₀ : M} (base : I s₀ m₀)
    (request : ∀ p now scope r, I p.state p.memory → ok p (.request now scope r) →
      I (p.state.handle cfg now scope r).1 (remember now scope r p.state p.memory))
    (sweep : ∀ p now, I p.state p.memory → ok p (.sweep now) →
      I (p.state.expireDueProbes cfg now) p.memory)
    (load : ∀ p e now, (∃ index, e = .load now index ∨ e = .restart now index) → ok p e →
      ∀ (s t : BrokerState) m b n, I s m → s.snapshot n = some b → I (t.loadSnapshot cfg now b).1 m)
    {p : History M} (h : Reached (next cfg remember) ok ⟨s₀, m₀, []⟩ p) : I p.state p.memory := by
  refine (h.invariant (I := fun p => I p.state p.memory ∧
    ∀ b ∈ p.saved, ∃ s n, I s b.2 ∧ s.snapshot n = some b.1) ⟨base, ?_⟩ fun p e ⟨hs, hb⟩ hok => ?_).1
  · exact fun b hmem => absurd hmem List.not_mem_nil
  cases e with
  | request now scope r => exact ⟨request p now scope r hs hok, hb⟩
  | sweep now => exact ⟨sweep p now hs hok, hb⟩
  | save now =>
    refine ⟨hs, fun b hmem => ?_⟩
    rcases List.mem_append.mp hmem with hmem | hmem
    · obtain ⟨c, hc, rfl⟩ := List.mem_map.mp hmem
      exact ⟨p.state, now, hs, Option.mem_toList.mp hc⟩
    · exact hb b hmem
  | load now index =>
    simp only [next]
    rcases hg : p.saved[index]? with - | ⟨b, m⟩
    · exact ⟨hs, hb⟩
    · obtain ⟨s, n, hI, hsnap⟩ := hb (b, m) (List.mem_of_getElem? hg)
      exact ⟨load p _ now ⟨index, Or.inl rfl⟩ hok s p.state m b n hI hsnap, hb⟩
  | restart now index =>
    simp only [next]
    rcases hg : p.saved[index]? with - | ⟨b, m⟩
    · exact ⟨hs, hb⟩
    · obtain ⟨s, n, hI, hsnap⟩ := hb (b, m) (List.mem_of_getElem? hg)
      exact ⟨load p _ now ⟨index, Or.inr rfl⟩ hok s {} m b n hI hsnap, hb⟩

end History
