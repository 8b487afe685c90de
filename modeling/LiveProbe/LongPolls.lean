/-
LiveProbe/LongPolls.lean

The long polls of a broker: `waitForEvents`, the listeners it registers, and what
completes them.

A listener is the `finish` of a waiter; it holds on to the set it was put into, while
the map of listeners may hold another set of the same probe by then.  That it never
does is the invariant here (`Linked`): the set of a probe in the map has exactly the
waiters of the probe that are not settled, and no other waiter is unsettled.  One
lemma says what finishing some listeners does (`Linked.finishAll`), and appends,
deletions, aborts, timeouts and `dispose` differ in which listeners they finish.
-/
import LiveProbe.Rings

open JsString BrokerState

inductive ActivityReason
  | activity | timeout | aborted
  deriving DecidableEq, Repr

/-- What a call of `registerActivityListener` has in its closure. -/
structure Waiter where
  probeId : JsString
  /-- Its set, in the heap of sets. -/
  listeners : ℕ
  signal : Option ℕ
  settled : Bool := false
  /-- Its timeout runs. -/
  timeout : Bool := false
  /-- `onAbort` listens to the signal. -/
  onAbort : Bool := false
  deriving DecidableEq, Repr

/-- A broker with its long polls.  Waiters, sets and abort signals are given by numbers. -/
structure LongPolls where
  state : BrokerState := {}
  /-- The sets of listeners, each in the order of its additions. -/
  sets : List (List ℕ) := []
  listeners : JsMap JsString ℕ := ∅
  waiters : List Waiter := []
  /-- The signals that are aborted. -/
  aborted : List ℕ := []
  /-- The promises that were resolved. -/
  resolved : List (ℕ × ActivityReason) := []

namespace LongPolls

/-! ### Listeners -/

def set (p : LongPolls) (a : ℕ) : List ℕ := (p.sets[a]?).getD []

/-- The waiter once it has settled. -/
def settle (x : Waiter) : Waiter := { x with settled := true, timeout := false, onAbort := false }

def finish (reason : ActivityReason) (p : LongPolls) (w : ℕ) : LongPolls :=
  match p.waiters[w]? with
  | none => p
  | some x =>
    if x.settled then p
    else
      let left := (p.set x.listeners).erase w
      { p with
        waiters := p.waiters.set w (settle x)
        sets := p.sets.set x.listeners left
        listeners := if left = [] then p.listeners.delete x.probeId else p.listeners
        resolved := p.resolved ++ [(w, reason)] }

def finishAll (reason : ActivityReason) (l : List ℕ) (p : LongPolls) : LongPolls := l.foldl (finish reason) p

/-- The set of a probe in the map, or a fresh one, with one more listener. -/
def addListener (probeId : JsString) (w : ℕ) (p : LongPolls) : LongPolls × ℕ :=
  match p.listeners.get? probeId with
  | some a => ({ p with sets := p.sets.set a (p.set a ++ [w]) }, a)
  | none => ({ p with sets := p.sets ++ [[w]], listeners := p.listeners.set probeId p.sets.length }, p.sets.length)

/-- `registerActivityListener`, until the timeout runs and the signal is listened to. -/
def register (probeId : JsString) (signal : Option ℕ) (p : LongPolls) : LongPolls :=
  let (q, listeners) := p.addListener probeId p.waiters.length
  { q with
    waiters := p.waiters ++ [{ probeId, listeners, signal, timeout := true, onAbort := signal.any (· ∉ p.aborted) }] }

/-- `waitForEvents` -/
def waitForEvents (probeId : JsString) (timeoutMs : ℤ) (signal : Option ℕ) (p : LongPolls) : LongPolls :=
  let w := p.waiters.length
  if timeoutMs ≤ 0 then
    -- `Promise.resolve("timeout")`: there is no listener
    { p with
      waiters := p.waiters ++ [{ probeId, listeners := 0, signal, settled := true }]
      resolved := p.resolved ++ [(w, .timeout)] }
  else if signal.any (· ∈ p.aborted) then finish .aborted (p.register probeId signal) w
  else if p.state.ring probeId ≠ [] then finish .activity (p.register probeId signal) w
  else p.register probeId signal

def signalActivity (probeId : JsString) (p : LongPolls) : LongPolls :=
  match p.listeners.get? probeId with
  | none => p
  | some a => p.finishAll .activity (p.set a)

/-- `appendEvent` -/
def append (cfg : Config) (e : ProbeEvent) (p : LongPolls) : LongPolls :=
  { p with state := p.state.appendEvent cfg e }.signalActivity e.probeId

def deleteProbe (now : ℕ) (id : JsString) (scope : ResourceScope) (p : LongPolls) : LongPolls :=
  if (p.state.deleteProbe now id scope).2 then
    { p with state := (p.state.deleteProbe now id scope).1 }.signalActivity id
  else p

/-- The listeners of a signal, in the order they were added. -/
def abortListeners (signal : ℕ) (p : LongPolls) : List ℕ :=
  (List.range p.waiters.length).filter fun w => (p.waiters[w]?).any fun x => x.onAbort && x.signal = some signal

/-- A signal is aborted; the second time nothing happens. -/
def abort (signal : ℕ) (p : LongPolls) : LongPolls :=
  if signal ∈ p.aborted then p
  else { p with aborted := signal :: p.aborted }.finishAll .aborted (p.abortListeners signal)

/-- The timeout of a waiter fires, if it runs. -/
def fire (w : ℕ) (p : LongPolls) : LongPolls :=
  if (p.waiters[w]?).any (·.timeout) then finish .timeout p w else p

def dispose (p : LongPolls) : LongPolls :=
  let p := p.listeners.values.foldl (fun p a => p.finishAll .aborted (p.set a)) p
  { p with listeners := ∅, state := { p.state with agentCapabilityReports := ∅ } }

/-! ### Runs -/

inductive Event
  | wait (probeId : JsString) (timeoutMs : ℤ) (signal : Option ℕ)
  | append (e : ProbeEvent)
  | delete (now : ℕ) (id : JsString) (scope : ResourceScope)
  | abort (signal : ℕ)
  | timeout (w : ℕ)
  | dispose

def next (cfg : Config) (p : LongPolls) : Event → LongPolls
  | .wait probeId timeoutMs signal => p.waitForEvents probeId timeoutMs signal
  | .append e => p.append cfg e
  | .delete now id scope => p.deleteProbe now id scope
  | .abort signal => p.abort signal
  | .timeout w => p.fire w
  | .dispose => p.dispose

def run (cfg : Config) (events : List Event) (p : LongPolls) : LongPolls := events.foldl (next cfg) p

/-- How the promise of a waiter was resolved, each time. -/
def resolutions (p : LongPolls) (w : ℕ) : List ActivityReason := (p.resolved.filter fun r => r.1 = w).map Prod.snd

/-! ### The invariant -/

/-- A waiter that is still waiting. -/
def Waits (p : LongPolls) (w : ℕ) (x : Waiter) : Prop := p.waiters[w]? = some x ∧ x.settled = false

/-- The map has the sets of the probes that are waited for, each with its waiters. -/
structure Linked (p : LongPolls) : Prop where
  holds : ∀ w x, p.Waits w x → p.listeners.get? x.probeId = some x.listeners
  member : ∀ id a, p.listeners.get? id = some a → ∀ w, w ∈ p.set a ↔ ∃ x, p.Waits w x ∧ x.probeId = id
  nonempty : ∀ id a, p.listeners.get? id = some a → p.set a ≠ []
  nodup : ∀ id a, p.listeners.get? id = some a → (p.set a).Nodup
  settled : ∀ (w : ℕ) x, p.waiters[w]? = some x → x.settled = true → settle x = x
  timeout : ∀ w x, p.Waits w x → x.timeout = true
  resolved : ∀ w, (p.resolutions w).length = if (p.waiters[w]?).any (·.settled) then 1 else 0

variable {p q : LongPolls} {w : ℕ} {x : Waiter} {reason : ActivityReason}

theorem resolutions_concat (p : LongPolls) (q : LongPolls) (w v : ℕ) (reason : ActivityReason)
    (h : q.resolved = p.resolved ++ [(w, reason)]) :
    q.resolutions v = if v = w then p.resolutions v ++ [reason] else p.resolutions v := by
  rw [resolutions, h, List.filter_append, List.map_append, resolutions, List.filter_singleton]
  by_cases hv : v = w
  · rw [if_pos hv, hv]
    simp
  · rw [if_neg hv]
    simp [Ne.symm hv]

theorem finish_of_waits (h : p.Waits w x) :
    finish reason p w =
      { p with
        waiters := p.waiters.set w (settle x)
        sets := p.sets.set x.listeners ((p.set x.listeners).erase w)
        listeners := if (p.set x.listeners).erase w = [] then p.listeners.delete x.probeId else p.listeners
        resolved := p.resolved ++ [(w, reason)] } := by
  simp only [finish, h.1, h.2, Bool.false_eq_true, if_false]

theorem finish_of_not_waits (h : ∀ x, ¬ p.Waits w x) : finish reason p w = p := by
  rw [finish]
  split
  · rfl
  · next x hx =>
    rw [if_pos]
    exact Bool.eq_true_of_not_eq_false fun hs => h x ⟨hx, hs⟩

theorem set_finish (h : p.Waits w x) (a : ℕ) :
    (finish reason p w).set a = if a = x.listeners then (p.set a).erase w else p.set a := by
  rw [finish_of_waits h, set]
  show ((p.sets.set x.listeners _)[a]?).getD [] = _
  rw [List.getElem?_set]
  by_cases ha : a = x.listeners
  · subst ha
    rw [if_pos rfl, if_pos rfl]
    split
    · rfl
    · next hlt =>
      rw [set, List.getElem?_eq_none (Nat.le_of_not_lt hlt)]
      rfl
  · rw [if_neg (Ne.symm ha), if_neg ha, set]

theorem waits_finish (h : p.Waits w x) {v : ℕ} {y : Waiter} :
    (finish reason p w).Waits v y ↔ v ≠ w ∧ p.Waits v y := by
  rw [finish_of_waits h, Waits]
  show (p.waiters.set w (settle x))[v]? = some y ∧ _ ↔ _
  rw [List.getElem?_set]
  by_cases hv : v = w
  · subst hv
    rw [if_pos rfl, if_pos (List.getElem?_eq_some_iff.mp h.1).1]
    constructor
    · rintro ⟨hy, hs⟩
      rw [← Option.some.inj hy] at hs
      cases hs
    · exact fun hne => absurd rfl hne.1
  · rw [if_neg (Ne.symm hv)]
    exact ⟨fun hy => ⟨hv, hy⟩, fun hy => hy.2⟩

theorem get?_listeners_finish (h : p.Waits w x) {id : JsString} {a : ℕ}
    (ha : (finish reason p w).listeners.get? id = some a) :
    p.listeners.get? id = some a ∧ (id = x.probeId → (p.set x.listeners).erase w ≠ []) := by
  rw [finish_of_waits h] at ha
  simp only at ha
  split at ha
  · next hleft =>
    by_cases hid : id = x.probeId
    · rw [hid, JsMap.get?_delete_self] at ha
      cases ha
    · exact ⟨(JsMap.get?_delete_of_ne hid).symm.trans ha, fun h => absurd h hid⟩
  · next hleft => exact ⟨ha, fun _ => hleft⟩

theorem Linked.finish (h : Linked p) (reason : ActivityReason) (w : ℕ) : Linked (finish reason p w) := by
  by_cases hw : ∃ x, p.Waits w x
  · obtain ⟨x, hx⟩ := hw
    have hmem : w ∈ p.set x.listeners := (h.member _ _ (h.holds w x hx) w).mpr ⟨x, hx, rfl⟩
    have hnodup : (p.set x.listeners).Nodup := h.nodup _ _ (h.holds w x hx)
    -- the sets of two probes are different, for a waiter of a set is a waiter of its probe
    have hown : ∀ id a, p.listeners.get? id = some a → (a = x.listeners ↔ id = x.probeId) := by
      intro id a ha
      constructor
      · rintro rfl
        obtain ⟨y, hy, rfl⟩ := (h.member id _ ha w).mp hmem
        rw [Option.some.inj (hy.1.symm.trans hx.1)]
      · rintro rfl
        exact Option.some.inj (ha.symm.trans (h.holds w x hx))
    refine ⟨?_, ?_, ?_, ?_, ?_, ?_, ?_⟩
    · intro v y hy
      obtain ⟨hne, hy⟩ := (waits_finish hx).mp hy
      rw [finish_of_waits hx]
      show (if _ then _ else _ : JsMap JsString ℕ).get? y.probeId = _
      split
      · next hleft =>
        rw [JsMap.get?_delete_of_ne, h.holds v y hy]
        -- another waiter of the probe would be left in the set
        intro hid
        have hv : v ∈ p.set x.listeners := (h.member _ _ (h.holds w x hx) v).mpr ⟨y, hy, hid⟩
        exact absurd ((List.mem_erase_of_ne hne).mpr hv) (hleft ▸ List.not_mem_nil)
      · exact h.holds v y hy
    · intro id a ha v
      replace ha := (get?_listeners_finish hx ha).1
      rw [set_finish hx]
      have hset := h.member id a ha v
      split
      · rw [(h.nodup id a ha).mem_erase_iff, hset]
        constructor
        · rintro ⟨hne, y, hy, hid⟩
          exact ⟨y, (waits_finish hx).mpr ⟨hne, hy⟩, hid⟩
        · rintro ⟨y, hy, hid⟩
          exact ⟨((waits_finish hx).mp hy).1, y, ((waits_finish hx).mp hy).2, hid⟩
      · next hne =>
        rw [hset]
        constructor
        · rintro ⟨y, hy, hid⟩
          refine ⟨y, (waits_finish hx).mpr ⟨?_, hy⟩, hid⟩
          rintro rfl
          rw [Option.some.inj (hy.1.symm.trans hx.1)] at hid
          exact hne ((hown id a ha).mpr hid.symm)
        · rintro ⟨y, hy, hid⟩
          exact ⟨y, ((waits_finish hx).mp hy).2, hid⟩
    · intro id a ha
      obtain ⟨hold, hleft⟩ := get?_listeners_finish hx ha
      rw [set_finish hx]
      split
      · next heq =>
        rw [heq]
        exact hleft ((hown id a hold).mp heq)
      · exact h.nonempty id a hold
    · intro id a ha
      replace ha := (get?_listeners_finish hx ha).1
      rw [set_finish hx]
      split
      · exact (h.nodup id a ha).erase w
      · exact h.nodup id a ha
    · intro v y hy hs
      rw [finish_of_waits hx] at hy
      change (p.waiters.set w (settle x))[v]? = some y at hy
      rw [List.getElem?_set] at hy
      split at hy
      · split at hy
        · rw [← Option.some.inj hy]
          rfl
        · cases hy
      · exact h.settled v y hy hs
    · intro v y hy
      exact h.timeout v y ((waits_finish hx).mp hy).2
    · intro v
      have hres := resolutions_concat p (LongPolls.finish reason p w) w v reason (by rw [finish_of_waits hx])
      have hold := h.resolved v
      rw [hres, finish_of_waits hx]
      show _ = if ((p.waiters.set w (settle x))[v]?).any _ then 1 else 0
      rw [List.getElem?_set]
      by_cases hv : v = w
      · subst hv
        rw [hx.1, Option.any_some, hx.2] at hold
        rw [if_pos rfl, if_pos rfl, if_pos (List.getElem?_eq_some_iff.mp hx.1).1, List.length_append, hold]
        rfl
      · rw [if_neg hv, if_neg (Ne.symm hv)]
        exact hold
  · rw [finish_of_not_waits fun x hx => hw ⟨x, hx⟩]
    exact h

/-! ### Finishing some of the waiters -/

/-- What finishing the listeners of a list comes to. -/
structure Finishes (reason : ActivityReason) (l : List ℕ) (p q : LongPolls) : Prop where
  linked : Linked q
  waits : ∀ v y, q.Waits v y ↔ v ∉ l ∧ p.Waits v y
  finished : ∀ v y, v ∈ l → p.Waits v y → q.resolutions v = p.resolutions v ++ [reason]
  others : ∀ v, (v ∈ l → ∀ y, ¬ p.Waits v y) → q.resolutions v = p.resolutions v
  waiters : ∀ (v : ℕ) y, p.waiters[v]? = some y → q.waiters[v]? = some y ∨ q.waiters[v]? = some (settle y)
  length : q.waiters.length = p.waiters.length
  state : q.state = p.state
  aborted : q.aborted = p.aborted

theorem Linked.finishes (h : Linked p) (reason : ActivityReason) (w : ℕ) :
    Finishes reason [w] p (LongPolls.finish reason p w) := by
  by_cases hw : ∃ x, p.Waits w x
  · obtain ⟨x, hx⟩ := hw
    have hres := fun v => resolutions_concat p (LongPolls.finish reason p w) w v reason (by rw [finish_of_waits hx])
    refine ⟨h.finish reason w, ?_, ?_, ?_, ?_, ?_, ?_, ?_⟩
    · intro v y
      rw [waits_finish hx, List.mem_singleton]
    · intro v y hv _
      rw [hres, if_pos (List.mem_singleton.mp hv)]
    · intro v hv
      rw [hres, if_neg]
      rintro rfl
      exact hv List.mem_cons_self x hx
    · intro v y hy
      rw [finish_of_waits hx]
      show (p.waiters.set w (settle x))[v]? = some y ∨ (p.waiters.set w (settle x))[v]? = _
      rw [List.getElem?_set]
      split
      · next hv =>
        subst hv
        rw [if_pos (List.getElem?_eq_some_iff.mp hy).1, Option.some.inj (hy.symm.trans hx.1)]
        exact Or.inr rfl
      · exact Or.inl hy
    · rw [finish_of_waits hx]
      exact List.length_set
    · rw [finish_of_waits hx]
    · rw [finish_of_waits hx]
  · have hnot : ∀ x, ¬ p.Waits w x := fun x hx => hw ⟨x, hx⟩
    rw [finish_of_not_waits hnot]
    refine ⟨h, fun v y => ?_, fun v y hv hy => ?_, fun v _ => rfl, fun v y hy => Or.inl hy, rfl, rfl, rfl⟩
    · rw [List.mem_singleton, iff_and_self]
      rintro hy rfl
      exact hnot y hy
    · rw [List.mem_singleton.mp hv] at hy
      exact absurd hy (hnot y)

theorem Finishes.refl (h : Linked p) (reason : ActivityReason) : Finishes reason [] p p :=
  ⟨h, fun v y => by simp, fun v y hv => absurd hv List.not_mem_nil, fun _ _ => rfl, fun _ _ hy => Or.inl hy, rfl, rfl, rfl⟩

theorem Finishes.trans {l l' : List ℕ} {r : LongPolls} (h : Finishes reason l p q) (h' : Finishes reason l' q r) :
    Finishes reason (l ++ l') p r := by
  refine ⟨h'.linked, fun v y => ?_, fun v y hv hy => ?_, fun v hv => ?_, fun v y hy => ?_, h'.length.trans h.length,
    h'.state.trans h.state, h'.aborted.trans h.aborted⟩
  · rw [h'.waits, h.waits, List.mem_append, not_or]
    tauto
  · by_cases hl : v ∈ l
    · rw [h'.others v fun _ y hy => ((h.waits v y).mp hy).1 hl, h.finished v y hl hy]
    · have hl' : v ∈ l' := (List.mem_append.mp hv).resolve_left hl
      rw [h'.finished v y hl' ((h.waits v y).mpr ⟨hl, hy⟩), h.others v fun h => absurd h hl]
  · rw [h'.others v fun hl' y hy => hv (List.mem_append_right _ hl') y ((h.waits v y).mp hy).2,
      h.others v fun hl => hv (List.mem_append_left _ hl)]
  · rcases h.waiters v y hy with hy | hy
    · exact h'.waiters v y hy
    · rcases h'.waiters v _ hy with hy | hy
      · exact Or.inr hy
      · exact Or.inr hy

theorem Linked.finishAll (h : Linked p) (reason : ActivityReason) (l : List ℕ) :
    Finishes reason l p (p.finishAll reason l) := by
  induction l generalizing p with
  | nil => exact .refl h reason
  | cons w l ih => exact (h.finishes reason w).trans (ih (h.finish reason w))

/-! ### Registration -/

theorem Linked.lt_length (h : Linked p) {id : JsString} {a : ℕ} (ha : p.listeners.get? id = some a) : a < p.sets.length := by
  by_contra hlt
  apply h.nonempty id a ha
  rw [set, List.getElem?_eq_none (Nat.le_of_not_lt hlt)]
  rfl

/-- The sets of two probes are different. -/
theorem Linked.probe_unique (h : Linked p) {id id' : JsString} {a : ℕ} (ha : p.listeners.get? id = some a)
    (ha' : p.listeners.get? id' = some a) : id = id' := by
  obtain ⟨v, hv⟩ := List.exists_mem_of_ne_nil _ (h.nonempty id a ha)
  obtain ⟨x, hx, rfl⟩ := (h.member id a ha v).mp hv
  obtain ⟨y, hy, rfl⟩ := (h.member id' a ha' v).mp hv
  rw [Option.some.inj (hx.1.symm.trans hy.1)]

theorem Linked.resolutions_new (h : Linked p) : p.resolutions p.waiters.length = [] := by
  have hnone := h.resolved p.waiters.length
  rw [List.getElem?_eq_none le_rfl] at hnone
  exact List.eq_nil_of_length_eq_zero hnone

/-- The waiter that is registered. -/
def newWaiter (probeId : JsString) (signal : Option ℕ) (p : LongPolls) : Waiter where
  probeId := probeId
  listeners := (p.addListener probeId p.waiters.length).2
  signal := signal
  timeout := true
  onAbort := signal.any (· ∉ p.aborted)

theorem waiters_register (probeId : JsString) (signal : Option ℕ) (p : LongPolls) :
    (p.register probeId signal).waiters = p.waiters ++ [p.newWaiter probeId signal] := rfl

/-- Nothing else changes. -/
theorem register_frame (probeId : JsString) (signal : Option ℕ) (p : LongPolls) :
    (p.register probeId signal).state = p.state ∧ (p.register probeId signal).aborted = p.aborted ∧
      (p.register probeId signal).resolved = p.resolved := by
  have hadd : ∀ w, (p.addListener probeId w).1.state = p.state ∧ (p.addListener probeId w).1.aborted = p.aborted ∧
      (p.addListener probeId w).1.resolved = p.resolved := by
    intro w
    rw [addListener]
    split <;> exact ⟨rfl, rfl, rfl⟩
  exact hadd _

theorem waits_concat {new : Waiter} (hnew : new.settled = false) (hq : q.waiters = p.waiters ++ [new]) {v : ℕ} {y : Waiter} :
    q.Waits v y ↔ p.Waits v y ∨ v = p.waiters.length ∧ y = new := by
  rw [Waits, hq, Waits, List.getElem?_append]
  split
  · next hlt =>
    rw [or_iff_left]
    rintro ⟨rfl, -⟩
    exact lt_irrefl _ hlt
  · next hlt =>
    rw [List.getElem?_eq_none (Nat.le_of_not_lt hlt)]
    constructor
    · rintro ⟨hy, -⟩
      obtain ⟨hv, hy⟩ := List.getElem?_eq_some_iff.mp hy
      refine Or.inr ⟨?_, ?_⟩
      · rw [List.length_singleton] at hv
        omega
      · rw [← hy]
        exact List.getElem_singleton ..
    · rintro (hy | ⟨rfl, rfl⟩)
      · cases hy.1
      · exact ⟨by rw [Nat.sub_self]; rfl, hnew⟩

/-- The listener is in the set of its probe, and the other sets are as before. -/
theorem listeners_register (h : Linked p) (probeId : JsString) (signal : Option ℕ) :
    (p.register probeId signal).listeners.get? probeId = some (p.newWaiter probeId signal).listeners ∧
      (∀ a, p.listeners.get? probeId = some a → (p.newWaiter probeId signal).listeners = a) ∧
      (∀ v, v ∈ (p.register probeId signal).set (p.newWaiter probeId signal).listeners ↔
        v = p.waiters.length ∨ ∃ x, p.Waits v x ∧ x.probeId = probeId) ∧
      ((p.register probeId signal).set (p.newWaiter probeId signal).listeners).Nodup ∧
      ∀ id, id ≠ probeId → (p.register probeId signal).listeners.get? id = p.listeners.get? id ∧
        ∀ a, p.listeners.get? id = some a → (p.register probeId signal).set a = p.set a := by
  rcases hg : p.listeners.get? probeId with - | a
  · -- a fresh set enters the map
    have hadd : p.addListener probeId p.waiters.length =
        ({ p with sets := p.sets ++ [[p.waiters.length]], listeners := p.listeners.set probeId p.sets.length },
          p.sets.length) := by
      simp only [addListener, hg]
    have hset : ∀ b, (p.register probeId signal).set b = if b = p.sets.length then [p.waiters.length] else p.set b := by
      intro b
      rw [register, hadd]
      show ((p.sets ++ [[p.waiters.length]])[b]?).getD [] = _
      rw [List.getElem?_append, set]
      split
      · next hlt => rw [if_neg (Nat.ne_of_lt hlt)]
      · next hlt =>
        split
        · next heq =>
          rw [heq, Nat.sub_self]
          rfl
        · next hne => rw [List.getElem?_eq_none (by simp; omega), List.getElem?_eq_none (Nat.le_of_not_lt hlt)]
    have hlisteners : (p.register probeId signal).listeners = p.listeners.set probeId p.sets.length := by
      rw [register, hadd]
    rw [newWaiter, hadd, hlisteners, hset, if_pos rfl]
    refine ⟨JsMap.get?_set_self .., ?_, fun v => ?_, List.nodup_singleton _, fun id hid => ⟨JsMap.get?_set_of_ne hid _, ?_⟩⟩
    · intro a ha
      cases ha
    · rw [List.mem_singleton, or_iff_left]
      rintro ⟨x, hx, rfl⟩
      rw [h.holds v x hx] at hg
      cases hg
    · intro b hb
      rw [hset, if_neg (Nat.ne_of_lt (h.lt_length hb))]
  · -- the set that is there gets one more listener
    have hadd : p.addListener probeId p.waiters.length =
        ({ p with sets := p.sets.set a (p.set a ++ [p.waiters.length]) }, a) := by
      simp only [addListener, hg]
    have hset : ∀ b, (p.register probeId signal).set b = if b = a then p.set a ++ [p.waiters.length] else p.set b := by
      intro b
      rw [register, hadd]
      show ((p.sets.set a (p.set a ++ [p.waiters.length]))[b]?).getD [] = _
      rw [List.getElem?_set, set]
      by_cases hb : b = a
      · rw [if_pos hb.symm, if_pos (h.lt_length hg), if_pos hb]
        rfl
      · rw [if_neg (Ne.symm hb), if_neg hb, set]
    have hlisteners : (p.register probeId signal).listeners = p.listeners := by
      rw [register, hadd]
    rw [newWaiter, hadd, hlisteners, hset, if_pos rfl]
    refine ⟨hg, fun _ ha => Option.some.inj ha, fun v => ?_, ?_, fun id hid => ⟨rfl, fun b hb => ?_⟩⟩
    · rw [List.mem_append, List.mem_singleton, h.member probeId a hg, or_comm]
    · rw [List.nodup_append]
      refine ⟨h.nodup probeId a hg, List.nodup_singleton _, fun v hv u hu => ?_⟩
      obtain ⟨x, hx, -⟩ := (h.member probeId a hg v).mp hv
      rw [List.mem_singleton.mp hu]
      exact Nat.ne_of_lt (List.getElem?_eq_some_iff.mp hx.1).1
    · rw [hset, if_neg]
      rintro rfl
      exact hid (h.probe_unique hb hg)

theorem Linked.register (h : Linked p) (probeId : JsString) (signal : Option ℕ) : Linked (p.register probeId signal) := by
  obtain ⟨hget, hkept, hmem, hnodup, hothers⟩ := listeners_register h probeId signal
  have hwaits : ∀ v y, (p.register probeId signal).Waits v y ↔
      p.Waits v y ∨ v = p.waiters.length ∧ y = p.newWaiter probeId signal :=
    fun v y => waits_concat rfl (waiters_register probeId signal p)
  -- the waiters of a probe, before and after
  have hprobe : ∀ id v, (∃ x, (p.register probeId signal).Waits v x ∧ x.probeId = id) ↔
      (id = probeId ∧ v = p.waiters.length) ∨ ∃ x, p.Waits v x ∧ x.probeId = id := by
    intro id v
    constructor
    · rintro ⟨x, hx, rfl⟩
      rcases (hwaits v x).mp hx with hx | ⟨rfl, rfl⟩
      · exact Or.inr ⟨x, hx, rfl⟩
      · exact Or.inl ⟨rfl, rfl⟩
    · rintro (⟨rfl, rfl⟩ | ⟨x, hx, hid⟩)
      · exact ⟨_, (hwaits _ _).mpr (Or.inr ⟨rfl, rfl⟩), rfl⟩
      · exact ⟨x, (hwaits v x).mpr (Or.inl hx), hid⟩
  have hset : ∀ id a, (p.register probeId signal).listeners.get? id = some a →
      (∀ v, v ∈ (p.register probeId signal).set a ↔ ∃ x, (p.register probeId signal).Waits v x ∧ x.probeId = id) ∧
        ((p.register probeId signal).set a).Nodup := by
    intro id a ha
    by_cases hid : id = probeId
    · subst hid
      obtain rfl := Option.some.inj (hget.symm.trans ha)
      refine ⟨fun v => ?_, hnodup⟩
      rw [hmem, hprobe, and_iff_right rfl]
    · obtain ⟨hsame, hsets⟩ := hothers id hid
      rw [hsame] at ha
      rw [hsets a ha]
      refine ⟨fun v => ?_, h.nodup id a ha⟩
      rw [h.member id a ha, hprobe, or_iff_right fun h => hid h.1]
  refine ⟨fun v y hy => ?_, fun id a ha => (hset id a ha).1, fun id a ha => ?_, fun id a ha => (hset id a ha).2,
    fun v y hy hs => ?_, fun v y hy => ?_, fun v => ?_⟩
  · rcases (hwaits v y).mp hy with hy | ⟨-, rfl⟩
    · have hold := h.holds v y hy
      by_cases hid : y.probeId = probeId
      · rw [hid] at hold
        rw [hid, hget, hkept _ hold]
      · rw [(hothers _ hid).1, hold]
    · exact hget
  · by_cases hid : id = probeId
    · have hnew : p.waiters.length ∈ (p.register probeId signal).set a :=
        ((hset id a ha).1 _).mpr ((hprobe id _).mpr (Or.inl ⟨hid, rfl⟩))
      exact List.ne_nil_of_mem hnew
    · obtain ⟨hsame, hsets⟩ := hothers id hid
      rw [hsame] at ha
      rw [hsets a ha]
      exact h.nonempty id a ha
  · rw [waiters_register, List.getElem?_append] at hy
    split at hy
    · exact h.settled v y hy hs
    · obtain ⟨hv, hy⟩ := List.getElem?_eq_some_iff.mp hy
      rw [List.getElem_singleton] at hy
      rw [← hy] at hs
      cases hs
  · rcases (hwaits v y).mp hy with hy | ⟨-, rfl⟩
    · exact h.timeout v y hy
    · rfl
  · have hold := h.resolved v
    rw [waiters_register, List.getElem?_append]
    rw [resolutions, (register_frame probeId signal p).2.2]
    show (p.resolutions v).length = _
    split
    · exact hold
    · next hlt =>
      rw [List.getElem?_eq_none (Nat.le_of_not_lt hlt)] at hold
      rw [hold]
      rcases v - p.waiters.length with - | n
      · rfl
      · rfl

/-! ### Steps -/

/-- Waiters stay, and a promise that is resolved is not resolved again. -/
structure Later (p q : LongPolls) : Prop where
  waiters : ∀ (w : ℕ) x, p.waiters[w]? = some x → ∃ y, q.waiters[w]? = some y ∧ y.probeId = x.probeId ∧ y.signal = x.signal
  resolutions : ∀ w, p.resolutions w ≠ [] → q.resolutions w = p.resolutions w

theorem Later.refl (p : LongPolls) : Later p p := ⟨fun _ x hx => ⟨x, hx, rfl, rfl⟩, fun _ _ => rfl⟩

theorem Later.trans {r : LongPolls} (h : Later p q) (h' : Later q r) : Later p r := by
  refine ⟨fun w x hx => ?_, fun w hw => ?_⟩
  · obtain ⟨y, hy, hprobe, hsignal⟩ := h.waiters w x hx
    obtain ⟨z, hz, hprobe', hsignal'⟩ := h'.waiters w y hy
    exact ⟨z, hz, hprobe'.trans hprobe, hsignal'.trans hsignal⟩
  · have hq := h.resolutions w hw
    rw [h'.resolutions w (hq ▸ hw), hq]

/-- A waiter waits as long as its promise is not resolved. -/
theorem Linked.resolutions_eq_nil (h : Linked p) (hx : p.waiters[w]? = some x) : p.resolutions w = [] ↔ p.Waits w x := by
  have hlength := h.resolved w
  rw [hx, Option.any_some] at hlength
  rw [← List.length_eq_zero_iff, hlength, Waits, and_iff_right hx]
  by_cases hs : x.settled = true
  · rw [if_pos hs, hs]
    exact ⟨nofun, nofun⟩
  · rw [if_neg hs, eq_self, true_iff]
    exact Bool.eq_false_of_not_eq_true hs

theorem Linked.not_waits (h : Linked p) (hw : p.resolutions w ≠ []) : ¬ p.Waits w x :=
  fun hx => hw ((h.resolutions_eq_nil hx.1).mpr hx)

theorem Finishes.later {l : List ℕ} (h : Finishes reason l p q) (hp : Linked p) : Later p q := by
  refine ⟨fun w x hx => ?_, fun w hw => h.others w fun _ y => hp.not_waits hw⟩
  rcases h.waiters w x hx with hy | hy
  · exact ⟨x, hy, rfl, rfl⟩
  · exact ⟨settle x, hy, rfl, rfl⟩

/-- A waiter that still waits listens to its signal, which is not aborted. -/
def Attentive (p : LongPolls) : Prop :=
  ∀ w x, p.Waits w x → ∀ signal, x.signal = some signal → x.onAbort = true ∧ signal ∉ p.aborted

theorem Finishes.attentive {l : List ℕ} (h : Finishes reason l p q) (ha : Attentive p) : Attentive q := by
  intro w x hx signal hsignal
  rw [h.aborted]
  exact ha w x ((h.waits w x).mp hx).2 signal hsignal

/-- What holds after any events. -/
structure Sound (p : LongPolls) : Prop where
  linked : Linked p
  attentive : Attentive p

theorem Sound.start (state : BrokerState) : Sound { state := state } := by
  refine ⟨⟨?_, ?_, ?_, ?_, ?_, ?_, fun _ => rfl⟩, ?_⟩
  · exact fun w x hx => by cases hx.1
  · exact fun id a ha => by cases ha
  · exact fun id a ha => by cases ha
  · exact fun id a ha => by cases ha
  · exact fun w x hx => by cases hx
  · exact fun w x hx => by cases hx.1
  · exact fun w x hx => by cases hx.1

theorem Linked.withState (h : Linked p) (state : BrokerState) : Linked { p with state := state } :=
  ⟨h.holds, h.member, h.nonempty, h.nodup, h.settled, h.timeout, h.resolved⟩

theorem Linked.signalActivity (h : Linked p) (id : JsString) :
    ∃ l, (∀ v, v ∈ l ↔ ∃ x, p.Waits v x ∧ x.probeId = id) ∧ Finishes .activity l p (p.signalActivity id) := by
  rw [LongPolls.signalActivity]
  split
  · next hnone =>
    refine ⟨[], fun v => ?_, .refl h _⟩
    rw [List.mem_nil_iff, false_iff]
    rintro ⟨x, hx, rfl⟩
    rw [h.holds v x hx] at hnone
    cases hnone
  · next a ha => exact ⟨p.set a, h.member id a ha, h.finishAll _ _⟩

/-- Of the sets that `dispose` goes through, no waiter is left. -/
theorem Linked.disposes (h : Linked p) (sets : List ℕ) :
    ∃ l, Finishes .aborted l p (sets.foldl (fun p a => p.finishAll .aborted (p.set a)) p) ∧
      ∀ v y, (sets.foldl (fun p a => p.finishAll .aborted (p.set a)) p).Waits v y → y.listeners ∉ sets := by
  induction sets generalizing p with
  | nil => exact ⟨[], .refl h _, fun _ _ _ => List.not_mem_nil⟩
  | cons a sets ih =>
    have hfirst := h.finishAll .aborted (p.set a)
    obtain ⟨l, hrest, hleft⟩ := ih hfirst.linked
    refine ⟨p.set a ++ l, hfirst.trans hrest, fun v y hy => ?_⟩
    rw [List.mem_cons, not_or]
    refine ⟨?_, hleft v y hy⟩
    rintro rfl
    obtain ⟨hnot, hwaits⟩ := (hfirst.waits v y).mp ((hrest.waits v y).mp hy).2
    exact hnot ((h.member _ _ (h.holds v y hwaits) v).mpr ⟨y, hwaits, rfl⟩)

/-! ### The events -/

theorem Sound.register (h : Sound p) (probeId : JsString) (signal : Option ℕ)
    (haborted : signal.any (· ∈ p.aborted) = false) : Attentive (p.register probeId signal) := by
  intro v y hy σ hσ
  rw [(register_frame probeId signal p).2.1]
  rcases (waits_concat rfl (waiters_register probeId signal p)).mp hy with hy | ⟨-, rfl⟩
  · exact h.attentive v y hy σ hσ
  · obtain rfl : signal = some σ := hσ
    have hnot : σ ∉ p.aborted := of_decide_eq_false haborted
    exact ⟨decide_eq_true hnot, hnot⟩

theorem later_register (p : LongPolls) (probeId : JsString) (signal : Option ℕ) : Later p (p.register probeId signal) := by
  refine ⟨fun w x hx => ⟨x, ?_, rfl, rfl⟩, fun w _ => ?_⟩
  · rw [waiters_register, List.getElem?_append_left (List.getElem?_eq_some_iff.mp hx).1, hx]
  · rw [resolutions, (register_frame probeId signal p).2.2, resolutions]

/-- The new waiter is settled at once. -/
theorem Linked.settles_new (h : Linked p) (reason : ActivityReason) (probeId : JsString) (signal : Option ℕ) :
    (LongPolls.finish reason (p.register probeId signal) p.waiters.length).resolutions p.waiters.length = [reason] := by
  have hwaits : (p.register probeId signal).Waits p.waiters.length (p.newWaiter probeId signal) :=
    (waits_concat rfl (waiters_register probeId signal p)).mpr (Or.inr ⟨rfl, rfl⟩)
  rw [((h.register probeId signal).finishes reason _).finished _ _ List.mem_cons_self hwaits, resolutions,
    (register_frame probeId signal p).2.2]
  show p.resolutions _ ++ _ = _
  rw [h.resolutions_new, List.nil_append]

/-- A waiter that does not wait at all. -/
theorem Sound.concat (h : Sound p) {x : Waiter} (hx : settle x = x) (hq : q = { p with
    waiters := p.waiters ++ [x], resolved := p.resolved ++ [(p.waiters.length, reason)] }) :
    Sound q ∧ Later p q ∧ q.resolutions p.waiters.length ≠ [] := by
  have hwaits : ∀ v y, q.Waits v y → p.Waits v y := by
    rintro v y ⟨hy, hs⟩
    rw [hq, List.getElem?_append] at hy
    split at hy
    · exact ⟨hy, hs⟩
    · obtain ⟨hv, hy⟩ := List.getElem?_eq_some_iff.mp hy
      rw [List.getElem_singleton] at hy
      rw [← hy, ← hx] at hs
      cases hs
  have hwaits' : ∀ v y, p.Waits v y → q.Waits v y := by
    rintro v y ⟨hy, hs⟩
    refine ⟨?_, hs⟩
    rw [hq, List.getElem?_append_left (List.getElem?_eq_some_iff.mp hy).1, hy]
  have hres := fun v => resolutions_concat p q p.waiters.length v reason (by rw [hq])
  refine ⟨⟨⟨?_, ?_, ?_, ?_, ?_, ?_, ?_⟩, ?_⟩, ⟨fun v y hy => ?_, fun v hv => ?_⟩, ?_⟩
  · intro v y hy
    rw [hq]
    exact h.linked.holds v y (hwaits v y hy)
  · intro id a ha v
    have hset : q.set a = p.set a := by rw [hq]; rfl
    rw [hq] at ha
    rw [hset, h.linked.member id a ha]
    exact ⟨fun ⟨y, hy, hid⟩ => ⟨y, hwaits' v y hy, hid⟩, fun ⟨y, hy, hid⟩ => ⟨y, hwaits v y hy, hid⟩⟩
  · rw [hq]
    exact h.linked.nonempty
  · rw [hq]
    exact h.linked.nodup
  · intro v y hy hs
    rw [hq, List.getElem?_append] at hy
    split at hy
    · exact h.linked.settled v y hy hs
    · obtain ⟨hv, hy⟩ := List.getElem?_eq_some_iff.mp hy
      rw [List.getElem_singleton] at hy
      rw [← hy, hx]
  · exact fun v y hy => h.linked.timeout v y (hwaits v y hy)
  · intro v
    have hold := h.linked.resolved v
    have hsettled : x.settled = true := by rw [← hx]; rfl
    rw [hres, show q.waiters = p.waiters ++ [x] by rw [hq], List.getElem?_append]
    split
    · next hv =>
      subst hv
      rw [h.linked.resolutions_new, if_neg (Nat.lt_irrefl _), Nat.sub_self]
      show 1 = if x.settled = true then 1 else 0
      rw [if_pos hsettled]
    · next hv =>
      split
      · exact hold
      · next hlt =>
        rw [List.getElem?_eq_none (Nat.le_of_not_lt hlt)] at hold
        have hpast : [x].length ≤ v - p.waiters.length := by
          rw [List.length_singleton]
          omega
        rw [hold, List.getElem?_eq_none hpast]
  · intro v y hy σ hσ
    rw [hq]
    exact h.attentive v y (hwaits v y hy) σ hσ
  · refine ⟨y, ?_, rfl, rfl⟩
    rw [hq, List.getElem?_append_left (List.getElem?_eq_some_iff.mp hy).1, hy]
  · rw [hres, if_neg]
    rintro rfl
    exact hv h.linked.resolutions_new
  · rw [hres, if_pos rfl]
    exact List.append_ne_nil_of_right_ne_nil _ (List.cons_ne_nil _ _)

theorem Sound.waitForEvents (h : Sound p) (probeId : JsString) (timeoutMs : ℤ) (signal : Option ℕ) :
    Sound (p.waitForEvents probeId timeoutMs signal) ∧ Later p (p.waitForEvents probeId timeoutMs signal) ∧
      (p.state.ring probeId ≠ [] ∨ signal.any (· ∈ p.aborted) = true ∨ timeoutMs ≤ 0 →
        (p.waitForEvents probeId timeoutMs signal).resolutions p.waiters.length ≠ []) := by
  have hregister := h.linked.register probeId signal
  have hlater := later_register p probeId signal
  rw [LongPolls.waitForEvents]
  split
  · obtain ⟨hsound, hlater, hsettled⟩ :=
      @Sound.concat p _ .timeout h { probeId, listeners := 0, signal, settled := true } rfl rfl
    exact ⟨hsound, hlater, fun _ => hsettled⟩
  · next htimeout =>
    split
    · next haborted =>
      have hfinish := hregister.finishes .aborted p.waiters.length
      refine ⟨⟨hfinish.linked, ?_⟩, hlater.trans (hfinish.later hregister), fun _ => ?_⟩
      · intro v y hy σ hσ
        obtain ⟨hne, hy⟩ := (hfinish.waits v y).mp hy
        rw [hfinish.aborted, (register_frame probeId signal p).2.1]
        rcases (waits_concat rfl (waiters_register probeId signal p)).mp hy with hy | ⟨rfl, -⟩
        · exact h.attentive v y hy σ hσ
        · exact absurd List.mem_cons_self hne
      · rw [h.linked.settles_new]
        exact List.cons_ne_nil _ _
    · next haborted =>
      have hattentive := h.register probeId signal (Bool.eq_false_of_not_eq_true haborted)
      split
      · have hfinish := hregister.finishes .activity p.waiters.length
        refine ⟨⟨hfinish.linked, hfinish.attentive hattentive⟩, hlater.trans (hfinish.later hregister), fun _ => ?_⟩
        rw [h.linked.settles_new]
        exact List.cons_ne_nil _ _
      · next hring =>
        exact ⟨⟨hregister, hattentive⟩, hlater, fun hcase => absurd hcase (by tauto)⟩

theorem Finishes.sound {l : List ℕ} (h : Finishes reason l p q) (hp : Sound p) : Sound q ∧ Later p q :=
  ⟨⟨h.linked, h.attentive hp.attentive⟩, h.later hp.linked⟩

/-- The waiters of a probe are woken up. -/
theorem Sound.signalled (h : Sound p) (state : BrokerState) (id : JsString) :
    Sound ({ p with state := state }.signalActivity id) ∧ Later p ({ p with state := state }.signalActivity id) ∧
      ∀ w x, p.Waits w x → x.probeId = id → ({ p with state := state }.signalActivity id).resolutions w = [.activity] := by
  obtain ⟨l, hl, hfinish⟩ := (h.linked.withState state).signalActivity id
  have hlater := hfinish.later (h.linked.withState state)
  refine ⟨⟨hfinish.linked, hfinish.attentive h.attentive⟩, ⟨hlater.waiters, hlater.resolutions⟩, ?_⟩
  intro w x hx hid
  rw [hfinish.finished w x ((hl w).mpr ⟨x, hx, hid⟩) hx]
  show p.resolutions w ++ _ = _
  rw [(h.linked.resolutions_eq_nil hx.1).mpr hx, List.nil_append]

theorem mem_abortListeners {signal : ℕ} : w ∈ p.abortListeners signal ↔
    ∃ x, p.waiters[w]? = some x ∧ x.onAbort = true ∧ x.signal = some signal := by
  rw [abortListeners, List.mem_filter, List.mem_range, Option.any_eq_true]
  simp only [Bool.and_eq_true, decide_eq_true_eq]
  exact and_iff_right_of_imp fun ⟨x, hx, _⟩ => (List.getElem?_eq_some_iff.mp hx).1

/-- An abort settles all that wait for its signal. -/
theorem Sound.abort (h : Sound p) (signal : ℕ) :
    Sound (p.abort signal) ∧ Later p (p.abort signal) ∧
      ∀ w x, p.Waits w x → x.signal = some signal → (p.abort signal).resolutions w ≠ [] := by
  rw [LongPolls.abort]
  split
  · next haborted => exact ⟨h, .refl p, fun w x hx hs => absurd haborted (h.attentive w x hx signal hs).2⟩
  · next hnew =>
    have hmark : Linked { p with aborted := signal :: p.aborted } :=
      ⟨h.linked.holds, h.linked.member, h.linked.nonempty, h.linked.nodup, h.linked.settled, h.linked.timeout,
        h.linked.resolved⟩
    have hlisten : ∀ w x, p.Waits w x → x.signal = some signal → w ∈ p.abortListeners signal := fun w x hx hs =>
      mem_abortListeners.mpr ⟨x, hx.1, (h.attentive w x hx signal hs).1, hs⟩
    have hfinish := hmark.finishAll .aborted (p.abortListeners signal)
    have hlater := hfinish.later hmark
    refine ⟨⟨hfinish.linked, ?_⟩, ⟨hlater.waiters, hlater.resolutions⟩, fun w x hx hs => ?_⟩
    · intro w x hx σ hσ
      obtain ⟨hnot, hold⟩ := (hfinish.waits w x).mp hx
      obtain ⟨honAbort, hother⟩ := h.attentive w x hold σ hσ
      rw [hfinish.aborted, List.mem_cons, not_or]
      refine ⟨honAbort, ?_, hother⟩
      -- whoever listened to this signal is settled
      rintro rfl
      exact hnot (hlisten w x hold hσ)
    · rw [hfinish.finished w x (hlisten w x hx hs) hx]
      exact List.append_ne_nil_of_right_ne_nil _ (List.cons_ne_nil _ _)

theorem Sound.fire (h : Sound p) (w : ℕ) :
    Sound (p.fire w) ∧ Later p (p.fire w) ∧ ∀ x, p.Waits w x → (p.fire w).resolutions w ≠ [] := by
  rw [LongPolls.fire]
  split
  · have hfinish := h.linked.finishes .timeout w
    refine ⟨(hfinish.sound h).1, (hfinish.sound h).2, fun x hx => ?_⟩
    rw [hfinish.finished w x List.mem_cons_self hx]
    exact List.append_ne_nil_of_right_ne_nil _ (List.cons_ne_nil _ _)
  · next hidle =>
    refine ⟨h, .refl p, fun x hx => absurd ?_ hidle⟩
    rw [hx.1, Option.any_some]
    exact h.linked.timeout w x hx

theorem Sound.dispose (h : Sound p) :
    Sound p.dispose ∧ Later p p.dispose ∧ ∀ w x, p.Waits w x → p.dispose.resolutions w ≠ [] := by
  obtain ⟨l, hfinish, hleft⟩ := h.linked.disposes p.listeners.values
  rw [LongPolls.dispose]
  generalize p.listeners.values.foldl (fun p a => p.finishAll .aborted (p.set a)) p = q at hfinish hleft
  -- every waiter was in a set of the map
  have hnone : ∀ w x, ¬ q.Waits w x := by
    intro w x hx
    refine hleft w x hx (JsMap.mem_values_iff.mpr ⟨x.probeId, ?_⟩)
    exact JsMap.get?_eq_some_iff.mp (h.linked.holds w x ((hfinish.waits w x).mp hx).2)
  have hlater := hfinish.later h.linked
  refine ⟨⟨⟨?_, ?_, ?_, ?_, hfinish.linked.settled, ?_, hfinish.linked.resolved⟩, ?_⟩, ⟨hlater.waiters, hlater.resolutions⟩, ?_⟩
  · exact fun w x hx => absurd hx (hnone w x)
  · exact fun id a ha => by cases ha
  · exact fun id a ha => by cases ha
  · exact fun id a ha => by cases ha
  · exact fun w x hx => absurd hx (hnone w x)
  · exact fun w x hx => absurd hx (hnone w x)
  · intro w x hx hnil
    obtain ⟨y, hy, -⟩ := hlater.waiters w x hx.1
    exact hnone w y ((hfinish.linked.resolutions_eq_nil hy).mp hnil)

/-- **Every event keeps what holds, and no promise is resolved again.** -/
theorem Sound.next (h : Sound p) (cfg : Config) (e : Event) : Sound (next cfg p e) ∧ Later p (next cfg p e) := by
  cases e with
  | wait probeId timeoutMs signal =>
    obtain ⟨hsound, hlater, -⟩ := h.waitForEvents probeId timeoutMs signal
    exact ⟨hsound, hlater⟩
  | append e =>
    obtain ⟨hsound, hlater, -⟩ := h.signalled (p.state.appendEvent cfg e) e.probeId
    exact ⟨hsound, hlater⟩
  | delete now id scope =>
    rw [LongPolls.next, LongPolls.deleteProbe]
    split
    · obtain ⟨hsound, hlater, -⟩ := h.signalled (p.state.deleteProbe now id scope).1 id
      exact ⟨hsound, hlater⟩
    · exact ⟨h, .refl p⟩
  | abort signal => exact ⟨(h.abort signal).1, (h.abort signal).2.1⟩
  | timeout w => exact ⟨(h.fire w).1, (h.fire w).2.1⟩
  | dispose => exact ⟨h.dispose.1, h.dispose.2.1⟩

theorem Sound.run (h : Sound p) (cfg : Config) (events : List Event) : Sound (run cfg events p) ∧ Later p (run cfg events p) := by
  induction events generalizing p with
  | nil => exact ⟨h, .refl p⟩
  | cons e events ih =>
    obtain ⟨hsound, hlater⟩ := h.next cfg e
    exact ⟨(ih hsound).1, hlater.trans (ih hsound).2⟩

/-! ### No wake-up is lost, no listener leaks -/

/-- What settles a waiter, if nothing did before. -/
def Settles (w : ℕ) (x : Waiter) : Event → Prop
  | .abort signal => x.signal = some signal
  | .timeout v => v = w
  | .dispose => True
  | _ => False

theorem Settles.congr {e : Event} {y : Waiter} (h : Settles w x e) (hsignal : y.signal = x.signal) : Settles w y e := by
  cases e with
  | abort signal => exact hsignal.trans h
  | timeout v => exact h
  | dispose => trivial
  | wait => exact h.elim
  | append => exact h.elim
  | delete => exact h.elim

/-- The event is activity on a probe. -/
def IsActivity (p : LongPolls) (id : JsString) : Event → Prop
  | .append e => e.probeId = id
  | .delete now deleted scope => deleted = id ∧ (p.state.deleteProbe now deleted scope).2 = true
  | _ => False

variable {cfg : Config}

theorem Sound.activity (h : Sound p) (hx : p.Waits w x) {e : Event} (he : p.IsActivity x.probeId e) :
    (LongPolls.next cfg p e).resolutions w = [.activity] := by
  cases e with
  | append e => exact (h.signalled (p.state.appendEvent cfg e) e.probeId).2.2 w x hx he.symm
  | delete now id scope =>
    rw [LongPolls.next, LongPolls.deleteProbe, if_pos he.2]
    exact (h.signalled (p.state.deleteProbe now id scope).1 id).2.2 w x hx he.1.symm
  | wait => exact he.elim
  | abort => exact he.elim
  | timeout => exact he.elim
  | dispose => exact he.elim

theorem Sound.settles (h : Sound p) (hx : p.Waits w x) {e : Event} (he : Settles w x e) :
    (LongPolls.next cfg p e).resolutions w ≠ [] := by
  cases e with
  | abort signal => exact (h.abort signal).2.2 w x hx he
  | timeout v =>
    obtain rfl : v = w := he
    exact (h.fire v).2.2 x hx
  | dispose => exact h.dispose.2.2 w x hx
  | wait => exact he.elim
  | append => exact he.elim
  | delete => exact he.elim

/-- A run with such an event settles the waiter, however the events are ordered. -/
theorem Sound.settles_run (h : Sound p) (hx : p.waiters[w]? = some x) {events : List Event} {e : Event}
    (he : e ∈ events) (hsettles : Settles w x e) : (LongPolls.run cfg events p).resolutions w ≠ [] := by
  induction events generalizing p x with
  | nil => cases he
  | cons e' events ih =>
    obtain ⟨hsound, hlater⟩ := h.next cfg e'
    have hstays : (LongPolls.next cfg p e').resolutions w ≠ [] →
        (LongPolls.run cfg events (LongPolls.next cfg p e')).resolutions w ≠ [] := by
      intro hsettled
      rw [((hsound.run cfg events).2).resolutions w hsettled]
      exact hsettled
    show (LongPolls.run cfg events (LongPolls.next cfg p e')).resolutions w ≠ []
    by_cases hwaits : p.Waits w x
    · rcases List.mem_cons.mp he with rfl | he
      · exact hstays (h.settles hwaits hsettles)
      · obtain ⟨y, hy, -, hsignal⟩ := hlater.waiters w x hx
        exact ih hsound hy he (hsettles.congr hsignal)
    · have hsettled : p.resolutions w ≠ [] := fun hnil => hwaits ((h.linked.resolutions_eq_nil hx).mp hnil)
      exact hstays (hlater.resolutions w hsettled ▸ hsettled)

theorem Linked.listeners_eq_empty (h : Linked p) (hnone : ∀ w x, ¬ p.Waits w x) : p.listeners = ∅ := by
  apply JsMap.ext
  rw [JsMap.entries_empty, List.eq_nil_iff_forall_not_mem]
  rintro ⟨id, a⟩ he
  have ha := JsMap.get?_eq_some_iff.mpr he
  obtain ⟨v, hv⟩ := List.exists_mem_of_ne_nil _ (h.nonempty id a ha)
  obtain ⟨x, hx, -⟩ := (h.member id a ha v).mp hv
  exact hnone v x hx

/-- The long polls of a broker after some events. -/
def after (cfg : Config) (state : BrokerState) (events : List Event) : LongPolls := run cfg events { state := state }

/-- **Whatever the order of events**, a promise is resolved at most once, and exactly once when its
timeout fires, its signal is aborted or the broker is disposed of; activity resolves those that wait for it;
a waiter for retained events does not wait; and without waiters the map is empty. -/
theorem longPolls_settle (cfg : Config) (state : BrokerState) (events : List Event) :
    (∀ w, ((after cfg state events).resolutions w).length ≤ 1) ∧
    ((∀ w < (after cfg state events).waiters.length, (after cfg state events).resolutions w ≠ []) →
      (after cfg state events).listeners = ∅) ∧
    (∀ probeId timeoutMs signal, (after cfg state events).state.ring probeId ≠ [] ∨
        signal.any (· ∈ (after cfg state events).aborted) = true ∨ timeoutMs ≤ 0 →
      (after cfg state (events ++ [.wait probeId timeoutMs signal])).resolutions (after cfg state events).waiters.length ≠ []) ∧
    ∀ (w : ℕ) x, (after cfg state events).waiters[w]? = some x →
      ((after cfg state events).resolutions w ≠ [] → x.timeout = false ∧ x.onAbort = false ∧
        ∀ later, (after cfg state (events ++ later)).resolutions w = (after cfg state events).resolutions w) ∧
      ((after cfg state events).resolutions w = [] → ∀ e later, (after cfg state events).IsActivity x.probeId e →
        (after cfg state (events ++ e :: later)).resolutions w = [.activity]) ∧
      ∀ later, (∃ e ∈ later, Settles w x e) → ∃ r, (after cfg state (events ++ later)).resolutions w = [r] := by
  obtain ⟨h, -⟩ := (Sound.start state).run cfg events
  have happend : ∀ later, after cfg state (events ++ later) = run cfg later (after cfg state events) :=
    fun later => List.foldl_append ..
  simp only [happend]
  change Sound (after cfg state events) at h
  generalize after cfg state events = p at h
  have hmost : ∀ {q : LongPolls}, Sound q → ∀ w, (q.resolutions w).length ≤ 1 := by
    intro q hq w
    rw [hq.linked.resolved]
    split <;> omega
  refine ⟨hmost h, fun hsettled => ?_, fun probeId timeoutMs signal => (h.waitForEvents probeId timeoutMs signal).2.2,
    fun w x hx => ⟨fun hsettled => ?_, fun hnil e later he => ?_, fun later ⟨e, he, hsettles⟩ => ?_⟩⟩
  · refine h.linked.listeners_eq_empty fun w x hx => ?_
    exact hsettled w (List.getElem?_eq_some_iff.mp hx.1).1 ((h.linked.resolutions_eq_nil hx.1).mpr hx)
  · have hx' : x.settled = true := by
      refine Bool.eq_true_of_not_eq_false fun hs => ?_
      exact hsettled ((h.linked.resolutions_eq_nil hx).mpr ⟨hx, hs⟩)
    have hclear := h.linked.settled w x hx hx'
    refine ⟨by rw [← hclear]; rfl, by rw [← hclear]; rfl, fun later => ?_⟩
    exact (h.run cfg later).2.resolutions w hsettled
  · have hactivity : (LongPolls.next cfg p e).resolutions w = [.activity] :=
      h.activity ((h.linked.resolutions_eq_nil hx).mp hnil) he
    have hlater := ((h.next cfg e).1.run cfg later).2
    show (run cfg later (LongPolls.next cfg p e)).resolutions w = _
    rw [hlater.resolutions w (by rw [hactivity]; exact List.cons_ne_nil _ _), hactivity]
  · have hne : (run cfg later p).resolutions w ≠ [] := h.settles_run hx he hsettles
    have hone := hmost (h.run cfg later).1 w
    exact List.length_eq_one_iff.mp (le_antisymm hone (List.length_pos_of_ne_nil hne))

end LongPolls

namespace Sample

/-- A client waits for a probe without events, and one arrives. -/
def polled : List LongPolls.Event := [.wait (draw '1' 0) 1000 (some 0)]

theorem polled_woken : (LongPolls.after config {} (polled ++ [.append (BrokerState.expiredEvent 0 (draw '1' 0))])).resolutions 0 =
    [.activity] := by
  obtain ⟨-, -, -, hwaiters⟩ := LongPolls.longPolls_settle config {} polled
  exact (hwaiters 0 _ rfl).2.1 rfl _ [] rfl

end Sample
