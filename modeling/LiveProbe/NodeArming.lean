/-
LiveProbe/NodeArming.lean

The breakpoint registry of the Node agent: `#acquireBreakpoint`,
`#installBreakpoint`, `#releaseHolder` and `#clearBreakpointRegistry` of
`probe-manager.ts`.

The code between two awaits runs without interruption, so a state is what the
manager's maps hold there, with the calls and the attempts that are suspended
and where; holders and attempts are objects, known by their index.  One event
runs one such stretch, and the events may come in any order: what the inspector
answers, and which of the suspended calls resumes next.

All calls that wait for an attempt resume when it has failed, and each of them
then asks V8 for itself.  Where only one of them does, a location has one
request at a time (`single_flight`); a second one collides with the first.
-/
import LiveProbe.JsMap
import LiveProbe.JsString
import LiveProbe.Transition

namespace NodeArming

open JsString

/-! ### Locations -/

structure RegisteredScript where
  scriptId : JsString
  url : JsString
  deriving DecidableEq

/-- What arming reads of a probe; `fingerprint` is its JSON text. -/
structure ProbeDefinition where
  id : JsString
  file : JsString
  line : ℕ
  fingerprint : JsString
  deriving DecidableEq

/-- A number without fraction as text. -/
def integerText (n : ℤ) : JsString :=
  if n < 0 then js "-" ++ decimal n.natAbs else decimal n.natAbs

/-- `locationKey`. -/
def locationKey (scriptId : JsString) (zeroBasedLine column : ℤ) : JsString :=
  scriptId ++ js ":" ++ integerText zeroBasedLine ++ js ":" ++ integerText column

/-- The arguments of `#acquireBreakpoint`. -/
structure Request where
  probe : ProbeDefinition
  script : RegisteredScript
  line : ℤ
  column : ℤ
  deriving DecidableEq

def Request.requested (r : Request) : JsString := locationKey r.script.scriptId (r.line - 1) r.column

/-- Both ask for the same script, line and column. -/
def Request.SameLocation (r r' : Request) : Prop :=
  r.script.scriptId = r'.script.scriptId ∧ r.line = r'.line ∧ r.column = r'.column

theorem Request.SameLocation.requested_eq {r r' : Request} (h : r.SameLocation r') :
    r.requested = r'.requested := by
  obtain ⟨hscript, hline, hcolumn⟩ := h
  rw [Request.requested, Request.requested, hscript, hline, hcolumn]

/-- A location as V8 reports it: the members that have the expected type. -/
structure ResolvedLocation where
  scriptId : Option JsString
  lineNumber : Option ℤ
  columnNumber : Option ℤ
  deriving DecidableEq

/-- `#resolvedKey`; the location is nothing when it is not an object. -/
def resolvedKey (fallbackScriptId : JsString) (location : Option ResolvedLocation) : Option JsString := do
  let l ← location
  let lineNumber ← l.lineNumber
  return locationKey (l.scriptId.getD fallbackScriptId) lineNumber (l.columnNumber.getD 0)

/-! ### The state -/

structure BreakpointHolder where
  breakpointId : JsString
  keys : List JsString
  probeIds : List JsString
  deriving DecidableEq

/-- What `setBreakpointByUrl` calls back with. -/
inductive Answer
  | error (message : JsString)
  | empty
  | response (breakpointId : JsString) (locations : List (Option ResolvedLocation))

/-- How far a call of `#installBreakpoint` has come. -/
inductive Install
  /-- the request is sent and not answered -/
  | outstanding
  /-- the answer has come, and the call has not resumed -/
  | answered (result : Option (JsString × List (Option ResolvedLocation)))
  /-- a breakpoint without a location is being removed -/
  | removing
  | settled (holder : Option ℕ)
  deriving DecidableEq

/-- How far a call of `#acquireBreakpoint` has come. -/
inductive Acquire
  /-- it waits for the attempt of another call -/
  | inFlight (attempt : ℕ)
  /-- it waits for its own attempt -/
  | own (attempt : ℕ)
  | returned (holder : Option ℕ)
  deriving DecidableEq

inductive Command
  | setBreakpointByUrl (lineNumber columnNumber : ℤ) (url : JsString)
  | removeBreakpoint (breakpointId : JsString)
  deriving DecidableEq

/-- A status event `"error"`. -/
structure ArmError where
  probeId : JsString
  detail : JsString
  deriving DecidableEq

structure State where
  holders : List BreakpointHolder := []
  byBreakpoint : JsMap JsString ℕ := ∅
  byLocation : JsMap JsString ℕ := ∅
  arming : JsMap JsString ℕ := ∅
  lastError : JsMap JsString JsString := ∅
  attempts : List (Request × Install) := []
  calls : List (Request × Acquire) := []
  commands : List Command := []
  errors : List ArmError := []

/-! ### The operations -/

namespace State

/-- `#error`. -/
def error (s : State) (probe : ProbeDefinition) (detail : JsString) : State :=
  let dedupe := probe.fingerprint ++ js ":" ++ detail
  if s.lastError.get? probe.id = some dedupe then s
  else { s with lastError := s.lastError.set probe.id dedupe
                errors := s.errors ++ [⟨probe.id, detail⟩] }

def send (s : State) (command : Command) : State := { s with commands := s.commands ++ [command] }

/-- `holder.probeIds.add(probe.id)`. -/
def claim (s : State) (holder : ℕ) (probeId : JsString) : State :=
  { s with holders := s.holders.modify holder fun o =>
      { o with probeIds := if probeId ∈ o.probeIds then o.probeIds else o.probeIds ++ [probeId] } }

def setAttempt (s : State) (attempt : ℕ) (install : Install) : State :=
  { s with attempts := s.attempts.modify attempt fun e => (e.1, install) }

def setCall (s : State) (call : ℕ) (acquire : Acquire) : State :=
  { s with calls := s.calls.modify call fun e => (e.1, acquire) }

/-- The request of `#installBreakpoint`, and `#arming` naming the attempt. -/
def attempt (s : State) (r : Request) : State :=
  { s with commands := s.commands ++ [.setBreakpointByUrl (r.line - 1) r.column r.script.url]
           attempts := s.attempts ++ [(r, .outstanding)]
           arming := s.arming.set r.requested s.attempts.length }

/-- `#acquireBreakpoint` up to its first await. -/
def acquire (s : State) (r : Request) : State :=
  match s.byLocation.get? r.requested with
  | some existing =>
    { s.claim existing r.probe.id with calls := s.calls ++ [(r, .returned (some existing))] }
  | none =>
    match s.arming.get? r.requested with
    | some inFlight => { s with calls := s.calls ++ [(r, .inFlight inFlight)] }
    | none => { s.attempt r with calls := s.calls ++ [(r, .own s.attempts.length)] }

/-- The callback of `setBreakpointByUrl`. -/
def answer (s : State) (a : ℕ) (answer : Answer) : State :=
  match s.attempts[a]? with
  | some (r, .outstanding) =>
    match answer with
    | .error message => (s.error r.probe (js "inspector-arm: " ++ message)).setAttempt a (.answered none)
    | .empty => (s.error r.probe (js "inspector-arm: empty response")).setAttempt a (.answered none)
    | .response breakpointId locations => s.setAttempt a (.answered (some (breakpointId, locations)))
  | _ => s

/-- The end of `#installBreakpoint`: the holder is registered where it was
requested and, if nothing is there, where V8 resolved it to. -/
def register (s : State) (r : Request) (breakpointId : JsString) (location : Option ResolvedLocation) : State :=
  let holder := s.holders.length
  let byLocation := s.byLocation.set r.requested holder
  let aliased : Option JsString :=
    (resolvedKey r.script.scriptId location).filter fun resolved => !byLocation.has resolved
  { s with holders := s.holders ++
             [{ breakpointId := breakpointId, keys := r.requested :: aliased.toList, probeIds := [] }]
           byBreakpoint := s.byBreakpoint.set breakpointId holder
           byLocation := match aliased with
             | some resolved => byLocation.set resolved holder
             | none => byLocation }

/-- `#installBreakpoint` after its first await. -/
def install (s : State) (a : ℕ) : State :=
  match s.attempts[a]? with
  | some (_, .answered none) => s.setAttempt a (.settled none)
  | some (_, .answered (some (breakpointId, []))) =>
    (s.send (.removeBreakpoint breakpointId)).setAttempt a .removing
  | some (r, .answered (some (breakpointId, location :: _))) =>
    (s.register r breakpointId location).setAttempt a (.settled (some s.holders.length))
  | _ => s

/-- `#installBreakpoint` once the breakpoint without a location is removed. -/
def removed (s : State) (a : ℕ) : State :=
  match s.attempts[a]? with
  | some (r, .removing) =>
    (s.error r.probe (js "line-not-found: " ++ r.probe.file ++ js ":" ++ decimal r.probe.line)).setAttempt a
      (.settled none)
  | _ => s

/-- The `finally` of `#acquireBreakpoint`. -/
def disarm (s : State) (requested : JsString) (a : ℕ) : State :=
  if s.arming.get? requested = some a then { s with arming := s.arming.delete requested } else s

/-- `#acquireBreakpoint` after an await. -/
def resume (s : State) (c : ℕ) : State :=
  match s.calls[c]? with
  | some (r, .inFlight a) =>
    match s.attempts[a]? with
    | some (_, .settled _) =>
      match s.byLocation.get? r.requested with
      | some settled => (s.claim settled r.probe.id).setCall c (.returned (some settled))
      | none => (s.attempt r).setCall c (.own s.attempts.length)
    | _ => s
  | some (r, .own a) =>
    match s.attempts[a]? with
    | some (_, .settled (some holder)) =>
      ((s.claim holder r.probe.id).disarm r.requested a).setCall c (.returned (some holder))
    | some (_, .settled none) => (s.disarm r.requested a).setCall c (.returned none)
    | _ => s
  | _ => s

/-- `#releaseHolder`. -/
def releaseHolder (s : State) (holder : ℕ) : State :=
  match s.holders[holder]? with
  | none => s
  | some o =>
    if o.probeIds ≠ [] then s
    else if s.byBreakpoint.get? o.breakpointId ≠ some holder then s
    else
      send { s with byBreakpoint := s.byBreakpoint.delete o.breakpointId
                    byLocation := s.byLocation.filter fun key h => !(o.keys.contains key && h == holder) }
        (.removeBreakpoint o.breakpointId)

/-- `holder.probeIds.delete(probe.id)` and `#releaseHolder`: what the end of
`#ensureArmed` and `#releaseBreakpointFor` do. -/
def drop (s : State) (holder : ℕ) (probeId : JsString) : State :=
  releaseHolder { s with holders := s.holders.modify holder fun o =>
      { o with probeIds := o.probeIds.filter (· ≠ probeId) } } holder

/-- `#releaseBreakpointFor`. -/
def releaseBreakpointFor (s : State) (breakpointId probeId : JsString) : State :=
  match s.byBreakpoint.get? breakpointId with
  | none => s
  | some holder => s.drop holder probeId

/-- `#clearBreakpointRegistry`. -/
def clearBreakpointRegistry (s : State) : State :=
  { s with byBreakpoint := ∅
           byLocation := ∅
           holders := s.holders.mapIdx fun i o =>
             if i ∈ s.byBreakpoint.values then { o with probeIds := [] } else o }

end State

/-! ### Steps -/

inductive Event
  /-- a call of `#acquireBreakpoint` -/
  | acquire (r : Request)
  | answer (attempt : ℕ) (answer : Answer)
  | install (attempt : ℕ)
  | removed (attempt : ℕ)
  | resume (call : ℕ)
  /-- `#ensureArmed` finds its probe gone once it has the holder -/
  | drop (holder : ℕ) (probeId : JsString)
  | releaseBreakpointFor (breakpointId probeId : JsString)
  /-- `suspendAll` and `stop` empty the registry -/
  | clear
  /-- they remove a breakpoint of the emptied registry -/
  | remove (breakpointId : JsString)

def next (s : State) : Event → State
  | .acquire r => s.acquire r
  | .answer a answer => s.answer a answer
  | .install a => s.install a
  | .removed a => s.removed a
  | .resume c => s.resume c
  | .drop h probeId => s.drop h probeId
  | .releaseBreakpointFor breakpointId probeId => s.releaseBreakpointFor breakpointId probeId
  | .clear => s.clearBreakpointRegistry
  | .remove breakpointId => s.send (.removeBreakpoint breakpointId)

/-! ### Attempts underway -/

/-- The request is not answered, or V8 has granted a breakpoint that is not registered yet. -/
def Install.underway : Install → Bool
  | .outstanding => true
  | .answered (some (_, locations)) => locations ≠ []
  | _ => false

namespace State

variable {s t : State} {a b c h : ℕ} {k : JsString} {r : Request} {i j : Install}

/-- The request of attempt `a` is sent and not answered. -/
def Outstanding (s : State) (a : ℕ) (r : Request) : Prop := s.attempts[a]? = some (r, .outstanding)

instance : Decidable (s.Outstanding a r) :=
  inferInstanceAs (Decidable (s.attempts[a]? = some (r, .outstanding)))

/-- Attempt `a` is underway at location `k`. -/
def Underway (s : State) (a : ℕ) (k : JsString) : Prop :=
  ∃ r i, s.attempts[a]? = some (r, i) ∧ i.underway = true ∧ r.requested = k

/-- The location a holder was requested for. -/
def armedFor (s : State) (h : ℕ) : Option JsString := s.holders[h]?.bind (·.keys.head?)

/-- The holder at location `k` was requested for it. -/
def Registered (s : State) (k : JsString) : Prop :=
  ∃ h, s.byLocation.get? k = some h ∧ s.armedFor h = some k

/-- A probe holds the breakpoint of `k`: its holder is registered, or V8 has
granted the breakpoint to an attempt that is about to register it. -/
def Held (s : State) (k : JsString) : Prop :=
  s.Registered k ∨ ∃ (a : ℕ) (r : Request) (breakpointId : _) (location : _) (locations : _),
    s.attempts[a]? = some (r, .answered (some (breakpointId, location :: locations))) ∧ r.requested = k

theorem Outstanding.underway (h : s.Outstanding a r) : s.Underway a r.requested := ⟨r, _, h, rfl, rfl⟩

theorem setAttempt_getElem? (s : State) (a b : ℕ) (i : Install) :
    (s.setAttempt a i).attempts[b]? =
      if a = b then s.attempts[b]?.map fun e => (e.1, i) else s.attempts[b]? := by
  rw [setAttempt, List.getElem?_modify]
  split <;> simp

/-- An attempt that is underway was so before, unless it is the one that was set. -/
theorem Underway.of_setAttempt (h : (s.setAttempt a i).Underway b k) :
    a ≠ b ∧ s.Underway b k ∨ a = b ∧ i.underway = true ∧ ∃ r j, s.attempts[a]? = some (r, j) ∧ r.requested = k := by
  obtain ⟨r, j, hb, hj, hk⟩ := h
  rw [setAttempt_getElem?] at hb
  split at hb
  · rename_i hab
    subst hab
    obtain ⟨e, he, hej⟩ := Option.map_eq_some_iff.mp hb
    cases hej
    exact .inr ⟨rfl, hj, e.1, e.2, he, hk⟩
  · rename_i hab
    exact .inl ⟨hab, r, j, hb, hj, hk⟩

theorem Underway.of_attempt (h : (s.attempt r).Underway b k) :
    s.Underway b k ∨ b = s.attempts.length ∧ k = r.requested := by
  obtain ⟨r', j, hb, hj, hk⟩ := h
  rcases Nat.lt_trichotomy b s.attempts.length with hlt | rfl | hgt
  · rw [attempt, List.getElem?_append_left hlt] at hb
    exact .inl ⟨r', j, hb, hj, hk⟩
  · rw [attempt, List.getElem?_concat_length] at hb
    cases hb
    exact .inr ⟨rfl, hk.symm⟩
  · rw [attempt, List.getElem?_eq_none (by simp; omega)] at hb
    cases hb

/-! ### The invariant -/

/-- `#arming` names the attempt underway at a location, and no holder that was
requested for the location is registered then. -/
structure Inv (s : State) : Prop where
  named : ∀ b k, s.Underway b k → s.arming.get? k = some b
  absent : ∀ b k, s.Underway b k → ¬ s.Registered k
  known : ∀ k h, s.byLocation.get? k = some h → h < s.holders.length

theorem Inv.init : Inv {} where
  named := by rintro b k ⟨r, i, h, -⟩; simp at h
  absent := by rintro b k ⟨r, i, h, -⟩; simp at h
  known := by intro k h hk; simp at hk

/-- Attempts and `#arming` as they were, and no new registrations. -/
theorem Inv.mono (hs : Inv s) (attempts : t.attempts = s.attempts) (arming : t.arming = s.arming)
    (armed : ∀ h, t.armedFor h = s.armedFor h) (length : t.holders.length = s.holders.length)
    (byLocation : ∀ k h, t.byLocation.get? k = some h → s.byLocation.get? k = some h) : Inv t := by
  have underway : ∀ {b k}, t.Underway b k → s.Underway b k := by
    rintro b k ⟨r, i, h, hi⟩
    exact ⟨r, i, attempts ▸ h, hi⟩
  refine ⟨fun b k h => arming ▸ hs.named b k (underway h), ?_, ?_⟩
  · rintro b k h ⟨holder, hk, hh⟩
    exact hs.absent b k (underway h) ⟨holder, byLocation k holder hk, armed holder ▸ hh⟩
  · intro k h hk
    rw [length]
    exact hs.known k h (byLocation k h hk)

/-- An attempt moves on, and is not underway unless it was. -/
theorem Inv.setAttempt (hs : Inv s) (ha : s.attempts[a]? = some (r, j))
    (hi : i.underway = true → j.underway = true) : Inv (s.setAttempt a i) := by
  have underway : ∀ {b k}, (s.setAttempt a i).Underway b k → s.Underway b k := by
    intro b k h
    rcases h.of_setAttempt with ⟨-, h⟩ | ⟨rfl, hunder, r', j', ha', hk⟩
    · exact h
    · rw [ha] at ha'
      cases ha'
      exact ⟨r, j, ha, hi hunder, hk⟩
  exact ⟨fun b k h => hs.named b k (underway h), fun b k h => hs.absent b k (underway h), hs.known⟩

theorem Inv.setCall (hs : Inv s) (c : ℕ) (acquire : Acquire) : Inv (s.setCall c acquire) :=
  hs.mono rfl rfl (fun _ => rfl) rfl fun _ _ h => h

theorem Inv.withCalls (hs : Inv s) (calls : List (Request × Acquire)) : Inv { s with calls := calls } :=
  hs.mono rfl rfl (fun _ => rfl) rfl fun _ _ h => h

theorem Inv.send (hs : Inv s) (command : Command) : Inv (s.send command) :=
  hs.mono rfl rfl (fun _ => rfl) rfl fun _ _ h => h

/-- A report changes the errors only. -/
theorem error_eq (s : State) (probe : ProbeDefinition) (detail : JsString) :
    ∃ lastError errors, s.error probe detail = { s with lastError := lastError, errors := errors } := by
  by_cases h : s.lastError.get? probe.id = some (probe.fingerprint ++ js ":" ++ detail)
  · exact ⟨s.lastError, s.errors, if_pos h⟩
  · exact ⟨_, _, if_neg h⟩

theorem Inv.error (hs : Inv s) (probe : ProbeDefinition) (detail : JsString) : Inv (s.error probe detail) := by
  obtain ⟨lastError, errors, h⟩ := s.error_eq probe detail
  rw [h]
  exact hs.mono rfl rfl (fun _ => rfl) rfl fun _ _ h => h

theorem error_attempts (s : State) (probe : ProbeDefinition) (detail : JsString) :
    (s.error probe detail).attempts = s.attempts := by
  obtain ⟨lastError, errors, h⟩ := s.error_eq probe detail
  rw [h]

/-- Holders that keep their keys were armed for the same locations. -/
theorem armedFor_congr (h : ∀ n : ℕ, (t.holders[n]?).map (·.keys) = (s.holders[n]?).map (·.keys)) (n : ℕ) :
    t.armedFor n = s.armedFor n := by
  have key (u : State) : u.armedFor n = ((u.holders[n]?).map (·.keys)).bind (·.head?) := by
    rw [armedFor, Option.bind_map]
    rfl
  rw [key, key, h]

/-- A change of one holder that leaves its keys. -/
theorem Inv.modify (hs : Inv s) {f : BreakpointHolder → BreakpointHolder} (hf : ∀ o, (f o).keys = o.keys) (h : ℕ) :
    Inv { s with holders := s.holders.modify h f } := by
  refine hs.mono rfl rfl (armedFor_congr fun n => ?_) (List.length_modify ..) fun _ _ h => h
  show ((s.holders.modify h f)[n]?).map (·.keys) = _
  rw [List.getElem?_modify]
  split <;> rcases s.holders[n]? with - | o <;> simp [hf]

theorem Inv.claim (hs : Inv s) (h : ℕ) (probeId : JsString) : Inv (s.claim h probeId) :=
  hs.modify (f := fun o =>
    { o with probeIds := if probeId ∈ o.probeIds then o.probeIds else o.probeIds ++ [probeId] }) (fun _ => rfl) h

/-- A request where none is underway and nothing is registered. -/
theorem Inv.attempt (hs : Inv s) (hlocation : s.byLocation.get? r.requested = none)
    (harming : ∀ b, s.arming.get? r.requested = some b → ¬ s.Underway b r.requested) : Inv (s.attempt r) := by
  have free : ∀ b, ¬ s.Underway b r.requested := fun b h => harming b (hs.named b _ h) h
  refine ⟨fun b k h => ?_, fun b k h => ?_, hs.known⟩
  · show (s.arming.set r.requested s.attempts.length).get? k = some b
    rcases h.of_attempt with h | ⟨rfl, rfl⟩
    · rw [JsMap.get?_set_of_ne (by rintro rfl; exact free b h)]
      exact hs.named b k h
    · rw [JsMap.get?_set, if_pos rfl]
  · rcases h.of_attempt with h | ⟨rfl, rfl⟩
    · exact hs.absent b k h
    · rintro ⟨holder, hk, -⟩
      have hk : s.byLocation.get? r.requested = some holder := hk
      rw [hlocation] at hk
      cases hk

/-- `#arming` forgets an attempt that is not underway. -/
theorem Inv.disarm (hs : Inv s) (ha : ∀ k, ¬ s.Underway a k) (requested : JsString) :
    Inv (s.disarm requested a) := by
  rw [State.disarm]
  split
  · rename_i harming
    refine ⟨fun b k h => ?_, hs.absent, hs.known⟩
    show (s.arming.delete requested).get? k = some b
    have hb := hs.named b k h
    rw [JsMap.get?_delete_of_ne, hb]
    rintro rfl
    rw [harming] at hb
    cases hb
    exact ha _ h
  · exact hs

/-- Registering a holder leaves the other holders where they were. -/
theorem register_byLocation (breakpointId : JsString) (location : Option ResolvedLocation)
    (hk : (s.register r breakpointId location).byLocation.get? k = some h) :
    h = s.holders.length ∨ s.byLocation.get? k = some h := by
  have set : ∀ {m : JsMap JsString ℕ} {key : JsString},
      (m.set key s.holders.length).get? k = some h → h = s.holders.length ∨ m.get? k = some h := by
    intro m key hm
    rw [JsMap.get?_set] at hm
    split at hm
    · exact .inl (Option.some.inj hm).symm
    · exact .inr hm
  simp only [State.register] at hk
  split at hk
  · rcases set hk with hk | hk
    · exact .inl hk
    · exact set hk
  · exact set hk

/-- The new holder is armed for the location it was requested for, the others as before. -/
theorem register_armedFor (s : State) (r : Request) (breakpointId : JsString) (location : Option ResolvedLocation)
    (n : ℕ) : (s.register r breakpointId location).armedFor n =
      if n = s.holders.length then some r.requested else s.armedFor n := by
  rw [armedFor, armedFor, State.register]
  rcases Nat.lt_trichotomy n s.holders.length with hlt | rfl | hgt
  · rw [List.getElem?_append_left hlt, if_neg hlt.ne]
  · rw [List.getElem?_concat_length, if_pos rfl]
    rfl
  · rw [List.getElem?_eq_none (by simp; omega), List.getElem?_eq_none hgt.le, if_neg hgt.ne']

/-- A granted breakpoint is registered. -/
theorem Inv.register (hs : Inv s) {breakpointId : JsString} {location : Option ResolvedLocation}
    (ha : s.attempts[a]? = some (r, j)) (hj : j.underway = true) (holder : Option ℕ) :
    Inv ((s.register r breakpointId location).setAttempt a (.settled holder)) := by
  have underway : ∀ {b k}, ((s.register r breakpointId location).setAttempt a (.settled holder)).Underway b k →
      a ≠ b ∧ s.Underway b k := by
    intro b k h
    rcases h.of_setAttempt with ⟨hab, h⟩ | ⟨-, hsettled, -⟩
    · exact ⟨hab, h⟩
    · cases hsettled
  refine ⟨fun b k h => hs.named b k (underway h).2, fun b k h => ?_, fun k h hk => ?_⟩
  · obtain ⟨hab, hb⟩ := underway h
    have hk : k ≠ r.requested := by
      rintro rfl
      have hn := hs.named b _ hb
      rw [hs.named a _ ⟨r, j, ha, hj, rfl⟩] at hn
      exact hab (Option.some.inj hn)
    rintro ⟨n, hn, harmed⟩
    have harmed : (s.register r breakpointId location).armedFor n = some k := harmed
    rw [register_armedFor] at harmed
    rcases register_byLocation breakpointId location hn with rfl | hn
    · rw [if_pos rfl] at harmed
      exact hk (Option.some.inj harmed).symm
    · rw [if_neg (hs.known k n hn).ne] at harmed
      exact hs.absent b k hb ⟨n, hn, harmed⟩
  · show h < (s.holders ++ [_]).length
    rw [List.length_append]
    rcases register_byLocation breakpointId location hk with rfl | hk
    · exact Nat.lt_succ_self _
    · exact Nat.lt_succ_of_lt (hs.known k h hk)

/-- Entries leave the registry. -/
theorem Inv.unregister (hs : Inv s) (byBreakpoint : JsMap JsString ℕ) {byLocation : JsMap JsString ℕ}
    (hsub : ∀ k h, byLocation.get? k = some h → s.byLocation.get? k = some h) :
    Inv { s with byBreakpoint := byBreakpoint, byLocation := byLocation } :=
  hs.mono rfl rfl (fun _ => rfl) rfl hsub

theorem Inv.releaseHolder (hs : Inv s) (h : ℕ) : Inv (s.releaseHolder h) := by
  unfold State.releaseHolder
  split
  · exact hs
  split
  · exact hs
  split
  · exact hs
  · refine (hs.unregister _ fun k n hk => ?_).send _
    rw [JsMap.get?_filter] at hk
    exact (Option.filter_eq_some_iff.mp hk).1

theorem Inv.drop (hs : Inv s) (h : ℕ) (probeId : JsString) : Inv (s.drop h probeId) :=
  (hs.modify (f := fun o => { o with probeIds := o.probeIds.filter (· ≠ probeId) }) (fun _ => rfl) h).releaseHolder h

theorem Inv.clearBreakpointRegistry (hs : Inv s) : Inv s.clearBreakpointRegistry := by
  refine hs.mono rfl rfl (armedFor_congr fun n => ?_) (List.length_mapIdx ..) fun k h hk => ?_
  · simp only [State.clearBreakpointRegistry, List.getElem?_mapIdx]
    rcases s.holders[n]? with - | o
    · rfl
    · rw [Option.map_some, Option.map_some, Option.map_some]
      split <;> rfl
  · cases hk

/-! ### A step -/

/-- Call `c` finds nothing registered once the attempt it waited for has
settled, and so makes its own. -/
def FallsThrough (s : State) (c : ℕ) (r : Request) : Prop :=
  ∃ (a : ℕ) (r' : Request) (holder : Option ℕ), s.calls[c]? = some (r, .inFlight a) ∧
    s.attempts[a]? = some (r', .settled holder) ∧ s.byLocation.get? r.requested = none

end State

/-- A call makes its own attempt after another's only if none is underway that
`#arming` names for the location. -/
def Orderly (s : State) : Event → Prop
  | .resume c => ∀ r, s.FallsThrough c r → ∀ a, s.arming.get? r.requested = some a → ¬ s.Underway a r.requested
  | _ => True

variable {s : State} {a : ℕ} {k : JsString} {r : Request} {i : Install}

theorem State.not_underway (ha : s.attempts[a]? = some (r, i)) (hi : i.underway = false) (k : JsString) :
    ¬ s.Underway a k := by
  rintro ⟨r', i', ha', hi', -⟩
  rw [ha] at ha'
  cases ha'
  rw [hi] at hi'
  cases hi'

namespace State

theorem Inv.acquire (hs : Inv s) (r : Request) : Inv (s.acquire r) := by
  unfold State.acquire
  split
  · exact (hs.claim _ _).withCalls _
  rename_i hlocation
  split
  · exact hs.withCalls _
  · rename_i harming
    refine (hs.attempt hlocation fun b hb => ?_).withCalls _
    rw [harming] at hb
    cases hb

theorem Inv.answer (hs : Inv s) (a : ℕ) (answer : Answer) : Inv (s.answer a answer) := by
  unfold State.answer
  split
  · rename_i r ha
    cases answer with
    | error message => exact (hs.error _ _).setAttempt (by rw [error_attempts]; exact ha) fun _ => rfl
    | empty => exact (hs.error _ _).setAttempt (by rw [error_attempts]; exact ha) fun _ => rfl
    | response breakpointId locations => exact hs.setAttempt ha fun _ => rfl
  · exact hs

theorem Inv.install (hs : Inv s) (a : ℕ) : Inv (s.install a) := by
  unfold State.install
  split
  · rename_i ha
    exact hs.setAttempt ha nofun
  · rename_i ha
    exact (hs.send _).setAttempt ha nofun
  · rename_i ha
    exact hs.register ha rfl _
  · exact hs

theorem Inv.removed (hs : Inv s) (a : ℕ) : Inv (s.removed a) := by
  unfold State.removed
  split
  · rename_i ha
    exact (hs.error _ _).setAttempt (by rw [error_attempts]; exact ha) nofun
  · exact hs

theorem Inv.resume (hs : Inv s) {c : ℕ} (ok : Orderly s (.resume c)) : Inv (s.resume c) := by
  unfold State.resume
  split
  · rename_i r a hc
    split
    · rename_i ha
      split
      · exact (hs.claim _ _).setCall _ _
      · rename_i hlocation
        exact (hs.attempt hlocation (ok r ⟨a, _, _, hc, ha, hlocation⟩)).setCall _ _
    · exact hs
  · split
    · rename_i ha
      exact ((hs.claim _ _).disarm (not_underway ha rfl) _).setCall _ _
    · rename_i ha
      exact (hs.disarm (not_underway ha rfl) _).setCall _ _
    · exact hs
  · exact hs

theorem Inv.next (hs : Inv s) {e : Event} (ok : Orderly s e) : Inv (next s e) := by
  cases e with
  | acquire r => exact hs.acquire r
  | answer a answer => exact hs.answer a answer
  | install a => exact hs.install a
  | removed a => exact hs.removed a
  | resume c => exact hs.resume ok
  | drop h probeId => exact hs.drop h probeId
  | releaseBreakpointFor breakpointId probeId =>
    show Inv (s.releaseBreakpointFor breakpointId probeId)
    unfold State.releaseBreakpointFor
    split
    · exact hs
    · exact hs.drop _ _
  | clear => exact hs.clearBreakpointRegistry
  | remove breakpointId => exact hs.send _

/-- One attempt at a time is underway at a location. -/
theorem Inv.underway_unique (hs : Inv s) {b : ℕ} (ha : s.Underway a k) (hb : s.Underway b k) : a = b := by
  have h := hs.named a k ha
  rw [hs.named b k hb] at h
  exact (Option.some.inj h).symm

/-- While a request is not answered, no probe holds the breakpoint of its location. -/
theorem Inv.not_held (hs : Inv s) (ha : s.Outstanding a r) : ¬ s.Held r.requested := by
  rintro (h | ⟨b, r', breakpointId, location, locations, hb, hr⟩)
  · exact hs.absent a _ ha.underway h
  · obtain rfl := hs.underway_unique ha.underway ⟨r', _, hb, rfl, hr⟩
    rw [Outstanding, hb] at ha
    cases ha

end State

/-! ### One request at a time -/

/-- Arming a location is single-flight in state `s`. -/
structure State.SingleFlight (s : State) : Prop where
  /-- no two requests for one location are outstanding -/
  outstanding : ∀ (a b : ℕ) (r r' : Request), s.Outstanding a r → s.Outstanding b r' → r.SameLocation r' → a = b
  /-- an answer that is reported as an arm error finds the breakpoint held by no probe -/
  report : ∀ (a : ℕ) (answer : Answer), (next s (.answer a answer)).errors ≠ s.errors →
    ∃ r, s.Outstanding a r ∧ ¬ s.Held r.requested

/-- Only the answer to an outstanding request is reported. -/
theorem State.outstanding_of_report {answer : Answer} (h : (s.answer a answer).errors ≠ s.errors) :
    ∃ r, s.Outstanding a r := by
  unfold State.answer at h
  split at h
  · rename_i r ha
    exact ⟨r, ha⟩
  · exact absurd rfl h

/-- **Single flight.**  As long as no waiting call goes on to an attempt of its
own while one is underway, a location has one request outstanding, and no arm
error is reported of a breakpoint that a probe holds. -/
theorem single_flight (h : Reached next Orderly {} s) : s.SingleFlight := by
  have inv : s.Inv := h.invariant .init fun s e hs ok => hs.next ok
  constructor
  · intro a b r r' ha hb hr
    apply inv.underway_unique ha.underway
    rw [hr.requested_eq]
    exact hb.underway
  · intro a answer hreport
    obtain ⟨r, hr⟩ := State.outstanding_of_report hreport
    exact ⟨r, hr, inv.not_held hr⟩

/-! ### Three probes on a line -/

/-- A probe on line 12 of one script, asking for the same breakpoint as the others. -/
def sampleRequest (id : String) : Request where
  probe := ⟨js id, js "app.js", 12, js id⟩
  script := ⟨js "7", js "file:///srv/app.js"⟩
  line := 12
  column := 0

/-- The first attempt fails; one probe tries again, and a third waits for it. -/
def oneRetry : List Event :=
  [.acquire (sampleRequest "a"), .acquire (sampleRequest "b"), .answer 0 (.error (js "Internal error")),
    .install 0, .resume 0, .resume 1, .acquire (sampleRequest "c")]

/-- Two probes wait for the attempt that fails, and both try again. -/
def twoRetries : List Event :=
  [.acquire (sampleRequest "a"), .acquire (sampleRequest "b"), .acquire (sampleRequest "c"),
    .answer 0 (.error (js "Internal error")), .install 0, .resume 0, .resume 1, .resume 2]

/-- V8 grants the breakpoint to the first of them. -/
def granted : List Event :=
  twoRetries ++
    [.answer 1 (.response (js "1:11:0:file:///srv/app.js") [some ⟨some (js "7"), some 11, some 0⟩]), .install 1, .resume 1]

/-- A call that may resume: it does not wait for another's attempt, or `#arming`
names none at its location. -/
theorem Orderly.of_call {c : ℕ} {p : Acquire} (hc : s.calls[c]? = some (r, p))
    (h : (∀ a, p ≠ .inFlight a) ∨ s.arming.get? r.requested = none) : Orderly s (.resume c) := by
  rintro r' ⟨a, -, -, hc', -⟩ b hb
  rw [hc] at hc'
  cases hc'
  rcases h with h | h
  · exact absurd rfl (h a)
  · rw [h] at hb
    cases hb

theorem oneRetry_singleFlight : (oneRetry.foldl next {}).SingleFlight :=
  single_flight <| .foldl .init ⟨trivial, trivial, trivial, trivial,
    .of_call (r := sampleRequest "a") (p := .own 0) (by decide) (.inl nofun),
    .of_call (r := sampleRequest "b") (p := .inFlight 0) (by decide) (.inr (by decide)),
    trivial, trivial⟩

/-- Two requests for one location are outstanding, and then the answer to the
second is reported while the first holds the breakpoint. -/
theorem twoRetries_collide :
    (¬ ∀ s, Reached next (fun _ _ => True) {} s →
      ∀ (a b : ℕ) (r r' : Request), s.Outstanding a r → s.Outstanding b r' → r.SameLocation r' → a = b) ∧
    ¬ ∀ s, Reached next (fun _ _ => True) {} s → ∀ (a : ℕ) (answer : Answer),
      (next s (.answer a answer)).errors ≠ s.errors → ∃ r, s.Outstanding a r ∧ ¬ s.Held r.requested := by
  have reached (l : List Event) : Reached next (fun _ _ => True) {} (l.foldl next {}) :=
    .foldl .init (.of_forall (fun _ _ _ => trivial) _)
  constructor
  · intro alone
    have h := alone _ (reached twoRetries) 1 2 (sampleRequest "b") (sampleRequest "c") (by decide)
      (by decide) ⟨rfl, rfl, rfl⟩
    cases h
  · intro apart
    obtain ⟨r, hr, hheld⟩ := apart _ (reached granted) 2
      (.error (js "Breakpoint at specified location already exists.")) (by decide)
    have hc : (granted.foldl next {}).Outstanding 2 (sampleRequest "c") := by decide
    rw [State.Outstanding] at hr hc
    rw [hc] at hr
    cases hr
    exact hheld (.inl ⟨0, by decide, by decide⟩)

end NodeArming
