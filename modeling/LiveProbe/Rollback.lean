/-
LiveProbe/Rollback.lean

`mutateDurably`: a mutation runs against the live state, is persisted, and is
rolled back when the store rejects it.  Between the mutation and the rejection
the broker goes on answering polls.

A rollback takes versions back.  If a poll was answered with a raised version
in the meantime, the next mutation of the service gives that version out again
for another set of probes (`rollback_reuses_version`).  This is the only way:
where no such poll falls into the window of a rejected mutation, a version
stands for one set of probes in the whole run (`polls_agree`).
-/
import LiveProbe.Process
import LiveProbe.View

open JsString Broker Protocol BrokerState

/-! ### The server -/

/-- A mutation whose persist call is running.  Besides the snapshot to roll
back to it records what the statements below speak of: the services whose
version it raised, and the full polls answered since, each with the latest
clock value read by then. -/
structure Pending where
  before : BrokerSnapshot
  raised : List (ResourceScope × JsString)
  latest : ℕ
  polled : List (ℕ × ResourceScope × JsString) := []

/-- An answered poll, with the active set at that moment. -/
structure PollRecord where
  scope : ResourceScope
  serviceId : JsString
  commitSha : Option JsString
  answer : PollResponse
  current : Except BrokerError (List ProbeDefinition)

/-- The broker with its mutation queue; the polls are listed latest first. -/
structure Server where
  state : BrokerState := {}
  pending : Option Pending := none
  polls : List PollRecord := []

inductive ServerEvent
  /-- A request that does not go through the queue. -/
  | call (now : ℕ) (scope : ResourceScope) (r : Request)
  /-- The queue takes up a task: snapshot, mutation, and the call of persist. -/
  | start (now : ℕ) (task : QueueTask)
  /-- The persist call returns. -/
  | persisted
  /-- The persist call rejects. -/
  | rejected (now : ℕ)

def QueueTask.raised (s : BrokerState) : QueueTask → List (ResourceScope × JsString)
  | request scope r => s.raised scope r
  | sweep => []

namespace Server

variable {cfg : Config}

/-- The record of a poll, when the request is one and was answered. -/
def pollRecord (cfg : Config) (s : BrokerState) (scope : ResourceScope) :
    Request → Response → Option PollRecord
  | .pollProbes serviceId _ commitSha, .poll (.ok answer) =>
    some { scope, serviceId, commitSha, answer, current := s.located cfg serviceId commitSha scope }
  | _, _ => none

def isFull : PollResponse → Bool
  | .full .. => true
  | .unchanged _ => false

/-- A pending mutation sees a clock value and perhaps an answered poll. -/
def observe (now : ℕ) (record : Option PollRecord) (p : Pending) : Pending :=
  { p with
    latest := max p.latest now
    polled := match record with
      | some a => if isFull a.answer then (max p.latest now, a.scope, a.serviceId) :: p.polled
        else p.polled
      | none => p.polled }

def next (cfg : Config) (v : Server) : ServerEvent → Server
  | .call now scope r =>
    if r.durable then v
    else
      let s := (v.state.handle cfg now scope r).1
      let record := pollRecord cfg s scope r (v.state.handle cfg now scope r).2
      { state := s, pending := v.pending.map (observe now record)
        polls := record.toList ++ v.polls }
  | .start now task =>
    match v.pending, v.state.snapshot now with
    | none, some before =>
      { v with
        state := (task.run cfg now v.state).1
        pending := if (task.run cfg now v.state).2 then
          some { before, raised := task.raised v.state, latest := now } else none }
    | _, _ => v
  | .persisted => { v with pending := none }
  | .rejected now =>
    match v.pending with
    | none => v
    | some p => { v with state := (v.state.loadSnapshot cfg now p.before).1, pending := none }

/-- The requests have passed the schemas of their routes. -/
def Valid : ServerEvent → Prop
  | .call _ _ r => r.Valid
  | .start _ (.request _ r) => r.Valid
  | _ => True

/-- When a persist call rejects, no full poll answered in its window was of a
service whose version the mutation raised, and the clock has not gone back
behind those polls. -/
def SafeRejection (v : Server) : ServerEvent → Prop
  | .rejected now =>
    ∀ p ∈ v.pending, ∀ w ∈ p.polled, w.1 ≤ now ∧ (w.2.1, w.2.2) ∉ p.raised
  | _ => True

/-! ### What polls promise -/

/-- A full answer and a later answer with the same version: the same set if
that is full as well, the active set of that moment if it says `unchanged`. -/
def Agrees (earlier later : PollRecord) : Prop :=
  earlier.scope = later.scope → earlier.serviceId = later.serviceId →
  earlier.commitSha = later.commitSha → ∀ version probes, earlier.answer = .full version probes →
    (∀ probes', later.answer = .full version probes' → probes' = probes) ∧
    (later.answer = .unchanged version → later.current = .ok probes)

/-- One version of a service stands for one set of probes. -/
def PollsAgree (polls : List PollRecord) : Prop :=
  polls.Pairwise fun later earlier => Agrees earlier later

/-! ### The invariant -/

/-- A full answer shows a view. -/
def Shows (cfg : Config) (a : PollRecord) (w : ServiceView) : Prop :=
  ∃ probes, a.answer = .full w.version probes ∧ w.located cfg a.commitSha = .ok probes

/-- The view at a later moment, when only probes that are due by then have left. -/
def ExpiredBy (latest : ℕ) (v w : ServiceView) : Prop := w = v ∨ ∃ n ≤ latest, w = v.expire n

theorem ExpiredBy.expire {latest n : ℕ} {v w : ServiceView} (h : ExpiredBy latest v w) :
    ExpiredBy (max latest n) v (w.expire n) := by
  rcases h with rfl | ⟨m, hm, rfl⟩
  · exact Or.inr ⟨n, le_max_right _ _, rfl⟩
  · refine Or.inr ⟨max m n, max_le_max_right n hm, ?_⟩
    rw [ServiceView.expire_expire]

theorem ExpiredBy.mono {l l' : ℕ} {v w : ServiceView} (h : ExpiredBy l v w) (hl : l ≤ l') :
    ExpiredBy l' v w := by
  rcases h with rfl | ⟨m, hm, rfl⟩
  · exact Or.inl rfl
  · exact Or.inr ⟨m, hm.trans hl, rfl⟩

abbrev ViewAdvances : ServiceView → ServiceView → Prop :=
  Advances ServiceView.version ServiceView.content

theorem ExpiredBy.advances {latest now : ℕ} {v w : ServiceView} (h : ExpiredBy latest v w)
    (hl : latest ≤ now) : ViewAdvances w (v.expire now) := by
  rcases h with rfl | ⟨m, hm, rfl⟩
  · exact w.advances_expire now
  · exact v.expire_advances (hm.trans hl)

/-- What is known while a mutation is pending, `s` being the state before it:
a service it did not raise has only lost due probes, and every full answer is
either of the time before or recorded in the window. -/
structure Window (cfg : Config) (v : Server) (p : Pending) (s : BrokerState) : Prop where
  indexed : Indexed s
  snapshot : ∃ n, s.snapshot n = some p.before
  view : ∀ sc sv, (sc, sv) ∉ p.raised → ExpiredBy p.latest (s.view sc sv) (v.state.view sc sv)
  polls : ∀ a ∈ v.polls, isFull a.answer = true → ∃ w, Shows cfg a w ∧
    (ViewAdvances w (s.view a.scope a.serviceId) ∨
    ∃ l, (l, a.scope, a.serviceId) ∈ p.polled ∧
      ((a.scope, a.serviceId) ∉ p.raised → ExpiredBy l (s.view a.scope a.serviceId) w))

/-- What holds of the server throughout. -/
structure Sound (cfg : Config) (v : Server) : Prop where
  indexed : Indexed v.state
  agree : PollsAgree v.polls
  polls : ∀ a ∈ v.polls, isFull a.answer = true → ∃ w, Shows cfg a w ∧
    ViewAdvances w (v.state.view a.scope a.serviceId)
  window : ∀ p ∈ v.pending, ∃ s, Window cfg v p s

theorem Sound.init : Sound cfg {} :=
  ⟨.init, .nil, by simp, by simp⟩

/-! ### Steps -/

theorem raised_of_not_durable {r : Request} (h : r.durable = false) (scope : ResourceScope)
    (s : BrokerState) : s.raised scope r = [] := by
  cases r <;> first | rfl | cases h

/-- What a poll is answered is what the view shows. -/
theorem pollRecord_spec (now : ℕ) (scope : ResourceScope) {r : Request} (s : BrokerState)
    (hv : r.Valid) (a : PollRecord)
    (h : a ∈ pollRecord cfg (s.handle cfg now scope r).1 scope r (s.handle cfg now scope r).2) :
    let w := (s.handle cfg now scope r).1.view a.scope a.serviceId
    a.current = w.located cfg a.commitSha ∧ (isFull a.answer = true → Shows cfg a w) ∧
      ∀ version, (a.answer = .unchanged version ∨ ∃ probes, a.answer = .full version probes) →
        version = w.version := by
  cases r with
  | pollProbes serviceId since commitSha =>
    have hc : ∀ c ∈ commitSha, nul ∉ c := fun c hc => by
      obtain ⟨-, ho⟩ := hv
      exact nul_notMem_of_commit (Schema.optional_self.mp ho c hc)
    simp only [handle, answer, pollProbes] at h ⊢
    generalize (s.expireDueProbes cfg now).touchService now serviceId none none none none scope
      none = t at h ⊢
    rcases hp : t.pollAnswer cfg serviceId since commitSha scope with e | ans
    · rw [hp] at h
      cases h
    rw [hp] at h
    obtain rfl := Option.some.inj h
    have hloc : t.located cfg serviceId commitSha scope =
      (t.view scope serviceId).located cfg commitSha := located_view hc t
    refine ⟨hloc, ?_, ?_⟩
    · intro hf
      simp only [pollAnswer] at hp
      split at hp
      · obtain rfl := Except.ok.inj hp
        cases hf
      · rcases hl : t.located cfg serviceId commitSha scope with e | probes
        · rw [hl] at hp
          cases hp
        · rw [hl] at hp
          obtain rfl := Except.ok.inj hp
          exact ⟨probes, rfl, hloc ▸ hl⟩
    · intro version hans
      simp only [pollAnswer] at hp
      split at hp
      · obtain rfl := Except.ok.inj hp
        rcases hans with h | ⟨_, h⟩ <;> cases h
        rfl
      · rcases hl : t.located cfg serviceId commitSha scope with e | probes
        · rw [hl] at hp
          cases hp
        · rw [hl] at hp
          obtain rfl := Except.ok.inj hp
          rcases hans with h | ⟨_, h⟩ <;> cases h
          rfl
  | _ => cases h

/-- A new answer agrees with the full answers before it. -/
theorem agrees_of_shows {earlier later : PollRecord} {w u : ServiceView}
    (hw : Shows cfg earlier w) (hadv : ViewAdvances w u)
    (hcur : later.current = u.located cfg later.commitSha)
    (hshow : isFull later.answer = true → Shows cfg later u)
    (hver : ∀ version, (later.answer = .unchanged version ∨
      ∃ probes, later.answer = .full version probes) → version = u.version) :
    Agrees earlier later := by
  intro _ _ hcommit version probes hans
  obtain ⟨ps, hps, hloc⟩ := hw
  rw [hps] at hans
  obtain ⟨rfl, rfl⟩ := PollResponse.full.inj hans
  have same : w.version = u.version → u.located cfg later.commitSha = .ok ps := fun he => by
    rw [← ServiceView.located_congr (hadv.content_eq he), ← hcommit]
    exact hloc
  constructor
  · intro probes' hlater
    have hv := hver _ (Or.inr ⟨_, hlater⟩)
    obtain ⟨qs, hqs, hq⟩ := hshow (by rw [hlater]; rfl)
    rw [hlater] at hqs
    obtain ⟨-, rfl⟩ := PollResponse.full.inj hqs
    exact Except.ok.inj (hq.symm.trans (same hv))
  · intro hlater
    rw [hcur]
    exact same (hver _ (Or.inl hlater))

theorem Sound.call {v : Server} (h : Sound cfg v) {now : ℕ} {scope : ResourceScope} {r : Request}
    (hv : r.Valid) : Sound cfg (v.next cfg (.call now scope r)) := by
  by_cases hd : r.durable = true
  · simpa only [next, hd, if_true] using h
  rw [Bool.not_eq_true] at hd
  have hadv : ∀ sc sv, ViewAdvances (v.state.view sc sv)
      ((v.state.handle cfg now scope r).1.view sc sv) := fun sc sv =>
    have ha : ServiceAdvances sc sv v.state (v.state.handle cfg now scope r).1 :=
      handle_advances h.indexed hv
    ⟨ha.le, ha.content_eq⟩
  have hview : ∀ sc sv, (v.state.handle cfg now scope r).1.view sc sv = v.state.view sc sv ∨
      (v.state.handle cfg now scope r).1.view sc sv = (v.state.view sc sv).expire now :=
    fun sc sv => handle_view cfg now h.indexed hv (by rw [raised_of_not_durable hd]; simp)
  have hrec : ∀ a ∈ pollRecord cfg (v.state.handle cfg now scope r).1 scope r
    (v.state.handle cfg now scope r).2, _ := pollRecord_spec now scope v.state hv
  simp only [next, hd]
  generalize hrecord : pollRecord cfg (v.state.handle cfg now scope r).1 scope r
    (v.state.handle cfg now scope r).2 = record at hrec ⊢
  have hidx : Indexed (v.state.handle cfg now scope r).1 := h.indexed.handle hv
  generalize (v.state.handle cfg now scope r).1 = t at hadv hview hrec hidx ⊢
  refine ⟨hidx, ?_, ?_, ?_⟩
  · -- the new answer against the full answers before it
    refine List.pairwise_append.mpr ⟨by cases record <;> simp, h.agree, ?_⟩
    intro later hlater earlier hearlier hsc hsv hcm version probes hans
    obtain ⟨w, hw, hwa⟩ := h.polls earlier hearlier (by rw [hans]; rfl)
    obtain ⟨hcur, hshow, hver⟩ := hrec later (by simpa using hlater)
    rw [hsc, hsv] at hwa
    exact agrees_of_shows hw (hwa.trans (hadv _ _)) hcur hshow hver hsc hsv hcm version probes hans
  · intro a ha hf
    rcases List.mem_append.mp ha with ha | ha
    · exact ⟨_, (hrec a (by simpa using ha)).2.1 hf, .refl _⟩
    · obtain ⟨w, hw, hwa⟩ := h.polls a ha hf
      exact ⟨w, hw, hwa.trans (hadv _ _)⟩
  · intro p hp
    obtain ⟨p₀, hp₀, rfl⟩ := Option.map_eq_some_iff.mp hp
    obtain ⟨s, hs⟩ := h.window p₀ hp₀
    have hexp : ∀ sc sv, (sc, sv) ∉ p₀.raised →
        ExpiredBy (max p₀.latest now) (s.view sc sv) (t.view sc sv) := fun sc sv hn => by
      rcases hview sc sv with he | he <;> rw [he]
      · exact (hs.view sc sv hn).mono (le_max_left _ _)
      · exact (hs.view sc sv hn).expire
    refine ⟨s, hs.indexed, hs.snapshot, hexp, ?_⟩
    intro a ha hf
    rcases List.mem_append.mp ha with ha | ha
    · have hmem : a ∈ record := by simpa using ha
      refine ⟨_, (hrec a hmem).2.1 hf, Or.inr ⟨max p₀.latest now, ?_, hexp _ _⟩⟩
      rw [Option.mem_def] at hmem
      simp [observe, hmem, hf]
    · obtain ⟨w, hw, hwa | ⟨l, hl, hle⟩⟩ := hs.polls a ha hf
      · exact ⟨w, hw, Or.inl hwa⟩
      · refine ⟨w, hw, Or.inr ⟨l, ?_, hle⟩⟩
        simp only [observe]
        split
        · split
          · exact List.mem_cons_of_mem _ hl
          · exact hl
        · exact hl

/-- What a task does to the views. -/
theorem task_spec (cfg : Config) {now : ℕ} {task : QueueTask} {s : BrokerState} (hs : Indexed s)
    (hv : Valid (.start now task)) :
    Indexed (task.run cfg now s).1 ∧
      ∀ sc sv, ViewAdvances (s.view sc sv) ((task.run cfg now s).1.view sc sv) ∧
        ((sc, sv) ∉ task.raised s →
          ExpiredBy now (s.view sc sv) ((task.run cfg now s).1.view sc sv)) := by
  cases task with
  | request scope r =>
    refine ⟨hs.handle hv, fun sc sv => ⟨?_, fun hn => ?_⟩⟩
    · have ha : ServiceAdvances sc sv s (s.handle cfg now scope r).1 := handle_advances hs hv
      exact ⟨ha.le, ha.content_eq⟩
    · rcases handle_view cfg now hs hv hn with h | h
      · exact Or.inl h
      · exact Or.inr ⟨now, le_rfl, h⟩
  | sweep =>
    refine ⟨hs.expireDueProbes, fun sc sv => ?_⟩
    change ViewAdvances _ ((s.expireDueProbes cfg now).view sc sv) ∧
      (_ → ExpiredBy now _ ((s.expireDueProbes cfg now).view sc sv))
    rw [view_expireDueProbes]
    exact ⟨ServiceView.advances_expire _ _, fun _ => Or.inr ⟨now, le_rfl, rfl⟩⟩

theorem Sound.start {v : Server} (h : Sound cfg v) {now : ℕ} {task : QueueTask}
    (hv : Valid (.start now task)) : Sound cfg (v.next cfg (.start now task)) := by
  simp only [next]
  split
  · next before _ hsnap =>
    obtain ⟨hidx, hviews⟩ := task_spec cfg h.indexed hv
    refine ⟨hidx, h.agree, ?_, ?_⟩
    · intro a ha hf
      obtain ⟨w, hw, hwa⟩ := h.polls a ha hf
      exact ⟨w, hw, hwa.trans (hviews _ _).1⟩
    · intro p hp
      dsimp only at hp
      split at hp
      · obtain rfl := Option.some.inj hp
        refine ⟨v.state, h.indexed, ⟨now, hsnap⟩, fun sc sv => (hviews sc sv).2, ?_⟩
        intro a ha hf
        obtain ⟨w, hw, hwa⟩ := h.polls a ha hf
        exact ⟨w, hw, Or.inl hwa⟩
      · cases hp
  · exact h

/-- **After a rollback every view is that of before the mutation, less what is
due.** -/
theorem view_rollback {s t : BrokerState} {n now : ℕ} {b : BrokerSnapshot} (hs : Indexed s)
    (hb : s.snapshot n = some b) (sc : ResourceScope) (sv : JsString) :
    ((t.loadSnapshot cfg now b).1.view sc sv) = (s.view sc sv).expire now := by
  rw [loadSnapshot_of_snapshot hb]
  change ((t.refill cfg b).expireDueProbes cfg now).view sc sv = _
  rw [view_expireDueProbes]
  have hcore := core_refill cfg t hs hb
  simp only [core, Prod.mk.injEq] at hcore
  rw [view_congr hcore.1 hcore.2.1 hcore.2.2.1]

theorem Sound.rejected {v : Server} (h : Sound cfg v) {now : ℕ}
    (hsafe : SafeRejection v (.rejected now)) : Sound cfg (v.next cfg (.rejected now)) := by
  rcases hp : v.pending with - | p
  · simpa only [next, hp] using h
  obtain ⟨s, hs⟩ := h.window p hp
  obtain ⟨n, hsnap⟩ := hs.snapshot
  simp only [next, hp]
  refine ⟨h.indexed.loadSnapshot p.before, h.agree, ?_, by simp⟩
  intro a ha hf
  obtain ⟨w, hw, hwa⟩ := hs.polls a ha hf
  refine ⟨w, hw, ?_⟩
  rw [view_rollback hs.indexed hsnap]
  rcases hwa with hwa | ⟨l, hl, hle⟩
  · exact hwa.trans (ServiceView.advances_expire _ _)
  · obtain ⟨hclock, hraised⟩ := hsafe p hp _ hl
    exact (hle hraised).advances hclock

theorem Sound.next {v : Server} (h : Sound cfg v) (e : ServerEvent) (hv : Valid e)
    (hsafe : SafeRejection v e) : Sound cfg (v.next cfg e) := by
  cases e with
  | call now scope r => exact h.call hv
  | start now task => exact h.start hv
  | persisted => exact ⟨h.indexed, h.agree, h.polls, by simp [Server.next]⟩
  | rejected now => exact h.rejected hsafe

/-- **Polls agree in every run whose rejections are safe**: two full answers
with one version carry one set of probes, and an agent that is told
`unchanged` holds the active set. -/
theorem polls_agree (cfg : Config) {v : Server}
    (h : Reached (next cfg) (fun v e => Valid e ∧ SafeRejection v e) {} v) :
    PollsAgree v.polls :=
  (h.invariant (I := Sound cfg) Sound.init fun _ e hs ⟨hv, hsafe⟩ => hs.next e hv hsafe).agree

/-- A probe is created and persisted, then polled. -/
def persistedRun : List ServerEvent :=
  [.start 0 (.request Sample.scope (.createProbe (Sample.draw 'A') (Sample.counter 1))),
   .persisted,
   .call 0 Sample.scope (.pollProbes (js "api") 0 none)]

theorem polls_agree_persistedRun :
    PollsAgree (persistedRun.foldl (next Sample.config) {}).polls :=
  polls_agree Sample.config <| Reached.init.foldl
    ⟨⟨Sample.counter_valid 1 (by simp), trivial⟩, ⟨trivial, trivial⟩,
      ⟨⟨by decide, by decide⟩, trivial⟩, trivial⟩

/-- A probe is created and polled before its persist call rejects; then another
one is created and polled. -/
def rejectedRun : List ServerEvent :=
  [.start 0 (.request Sample.scope (.createProbe (Sample.draw 'A') (Sample.counter 1))),
   .call 0 Sample.scope (.pollProbes (js "api") 0 none),
   .rejected 0,
   .start 0 (.request Sample.scope (.createProbe (Sample.draw 'B') (Sample.counter 2))),
   .persisted,
   .call 0 Sample.scope (.pollProbes (js "api") 0 none)]

/-- A poll that shows version 1 with one probe at a line. -/
def firstVersion (line : ℕ) (last : Char) : PollRecord :=
  let probe : ProbeDefinition :=
    { serviceId := js "api", sourceCommit := none, file := js "app.js", line, condition := none
      conditionExpression := none, ttlSeconds := 1800, createdBy := js "user", hitLimit := 10000
      body := .counter, id := Sample.draw last 0, version := 1, runtimeLocation := none
      runtimeLine := none, runtimeColumn := none }
  { scope := Sample.scope, serviceId := js "api", commitSha := none
    answer := .full 1 [probe], current := .ok [probe] }

theorem polls_rejectedRun :
    (rejectedRun.foldl (next Sample.config) {}).polls =
      [firstVersion 2 'B', firstVersion 1 'A'] := by
  rfl

/-- **A rejected mutation lets a version stand for two sets of probes.** -/
theorem rollback_reuses_version :
    ¬∀ (cfg : Config) (v : Server), Reached (next cfg) (fun _ e => Valid e) {} v →
      PollsAgree v.polls := by
  intro h
  have hrun : AllOk (next Sample.config) (fun _ e => Valid e) {} rejectedRun :=
    ⟨Sample.counter_valid 1 (by simp), ⟨by decide, by decide⟩, trivial,
      Sample.counter_valid 2 (by simp), trivial, ⟨by decide, by decide⟩, trivial⟩
  have hagree := h Sample.config _ (Reached.init.foldl hrun)
  rw [polls_rejectedRun] at hagree
  have := (List.pairwise_cons.mp hagree).1 (firstVersion 1 'A') (by simp) rfl rfl rfl 1 _ rfl
  exact absurd (this.1 _ rfl) (by decide)

end Server
