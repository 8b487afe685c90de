/-
LiveProbe/Loader.lean

The loader as the agent sees it: a process that holds the attached uprobes,
and a socket over which any call can fail.

A call is lost before the loader has performed it, or performed without an
answer, or answered.  The loader may also have restarted since the last call;
the uprobes of the old process are gone then.  What the kernel decides (whether
a uprobe can be attached, what the counters and the ring buffer hold) is an
input of the call.
-/
import LiveProbe.Decoder

namespace NativeAgent

/-- The socket file of a loader process. -/
structure LoaderIdentity where
  device : ℕ
  inode : ℕ
  deriving DecidableEq, Repr

/-- The loader process and the sites it holds attached. -/
structure Loader where
  identity : LoaderIdentity
  links : List String
  deriving DecidableEq, Repr

/-- What `decode_event` makes of a record for the site with its cookie.  An
event that fits the budgets of the current second is sent. -/
inductive IsolatedDecode where
  | filtered
  | event (withinBudget : Bool)
  | failed
  deriving DecidableEq, Repr

/-- A record of the ring buffer. -/
structure Record where
  size : ℕ
  cookie : ℕ
  outcome : IsolatedDecode
  deriving DecidableEq, Repr

structure Counters where
  rawHits : ℕ
  captures : ℕ
  dropped : ℕ
  deriving DecidableEq, Repr

inductive LoaderRequest where
  | getInfo
  | attach (siteId : String) (request : AttachRequest)
  | detach (siteId : String)
  | readCounters (cookie : ℕ)
  | pollEvents

inductive LoaderResponse where
  | info
  | attached
  | detached
  | counters (counters : Counters)
  | events (records : List Record)
  | error
  deriving DecidableEq, Repr

/-- How a call ends for the agent. -/
inductive Transport where
  | lost
  | unanswered
  | answered
  deriving DecidableEq, Repr

/-- The reason a site is detached for its safety. -/
inductive SafetyOutcome where
  | expired
  | suspended
  deriving DecidableEq, Repr

/-- What the world outside decides about one call of the loader.  `shutdown`
is a signal in the sleep of the preflight that follows the call, `safety` what
the clock and the hit rate say of the site whose counters were read. -/
structure Call where
  restart : Option LoaderIdentity := none
  transport : Transport := .answered
  admitted : Bool := true
  counters : Option Counters := none
  records : Option (List Record) := none
  shutdown : Bool := false
  safety : Option SafetyOutcome := none
  deriving DecidableEq, Repr

/-! ### The loader's side -/

/-- `handle` of the loader, with `BpfManager::attach` and `BpfManager::detach`. -/
def Loader.handle (call : Call) (loader : Loader) : LoaderRequest → Loader × LoaderResponse
  | .getInfo => (loader, .info)
  | .attach siteId _ =>
    if siteId ∈ loader.links ∨ ¬ call.admitted then (loader, .error)
    else ({ loader with links := siteId :: loader.links }, .attached)
  | .detach siteId => ({ loader with links := loader.links.filter (· ≠ siteId) }, .detached)
  | .readCounters _ =>
    match call.counters with
    | some counters => (loader, .counters counters)
    | none => (loader, .error)
  | .pollEvents =>
    match call.records with
    | some records => (loader, .events records)
    | none => (loader, .error)

/-- The process that is there when the call is made. -/
def Call.process (call : Call) (loader : Loader) : Loader :=
  match call.restart with
  | some identity => { identity, links := [] }
  | none => loader

/-- `LoaderClient::call`: the loader afterwards, and the answer if there is one. -/
def Call.perform (call : Call) (request : LoaderRequest) (loader : Loader) :
    Loader × Option LoaderResponse :=
  match call.transport with
  | .lost => (call.process loader, none)
  | .unanswered => (((call.process loader).handle call request).1, none)
  | .answered =>
    (((call.process loader).handle call request).1, some ((call.process loader).handle call request).2)

/-! ### What a call can do -/

section
variable {call : Call} {loader : Loader} {siteId : String}

theorem Call.process_links {s : String} (h : s ∈ (call.process loader).links) :
    call.process loader = loader ∧ s ∈ loader.links := by
  unfold Call.process at h ⊢
  cases hr : call.restart with
  | none =>
    rw [hr] at h
    exact ⟨rfl, h⟩
  | some identity =>
    rw [hr] at h
    exact absurd h List.not_mem_nil

/-- No request changes who the loader is. -/
theorem Loader.handle_identity (request : LoaderRequest) :
    (loader.handle call request).1.identity = loader.identity := by
  cases request <;> simp only [Loader.handle] <;> split <;> rfl

/-- Only an attach request adds a site. -/
theorem Loader.handle_links {request : LoaderRequest} {s : String}
    (h : s ∈ (loader.handle call request).1.links) :
    s ∈ loader.links ∨ call.admitted = true ∧ ∃ r, request = .attach s r := by
  cases request with
  | getInfo => exact .inl h
  | attach siteId r =>
    simp only [Loader.handle] at h
    split at h
    · exact .inl h
    · rename_i hnew
      rcases List.mem_cons.mp h with rfl | h
      · exact .inr ⟨by simpa using (not_or.mp hnew).2, r, rfl⟩
      · exact .inl h
  | detach siteId => exact .inl (List.mem_filter.mp h).1
  | readCounters cookie =>
    simp only [Loader.handle] at h
    split at h <;> exact .inl h
  | pollEvents =>
    simp only [Loader.handle] at h
    split at h <;> exact .inl h

/-- A site that is held after a call was held before it, by the same process, or
the call attached it. -/
theorem Call.perform_links {request : LoaderRequest} {s : String}
    (h : s ∈ (call.perform request loader).1.links) :
    call.process loader = loader ∧ s ∈ loader.links ∨
      call.transport ≠ .lost ∧ call.admitted = true ∧ ∃ r, request = .attach s r := by
  unfold Call.perform at h
  cases ht : call.transport with
  | lost =>
    rw [ht] at h
    exact .inl (Call.process_links h)
  | unanswered =>
    rw [ht] at h
    rcases Loader.handle_links h with h | h
    · exact .inl (Call.process_links h)
    · exact .inr ⟨by decide, h⟩
  | answered =>
    rw [ht] at h
    rcases Loader.handle_links h with h | h
    · exact .inl (Call.process_links h)
    · exact .inr ⟨by decide, h⟩

theorem Call.perform_identity (request : LoaderRequest) :
    (call.perform request loader).1.identity = (call.process loader).identity := by
  unfold Call.perform
  cases call.transport with
  | lost => rfl
  | unanswered => exact Loader.handle_identity request
  | answered => exact Loader.handle_identity request

/-- After an answered detach request the site is not held. -/
theorem Call.notMem_of_detached
    (h : (call.perform (.detach siteId) loader).2 = some .detached) :
    siteId ∉ (call.perform (.detach siteId) loader).1.links := by
  unfold Call.perform at h ⊢
  cases ht : call.transport with
  | lost =>
    rw [ht] at h
    cases h
  | unanswered =>
    rw [ht] at h
    cases h
  | answered =>
    show siteId ∉ (call.process loader).links.filter (· ≠ siteId)
    intro hmem
    exact absurd rfl (of_decide_eq_true (List.mem_filter.mp hmem).2)

/-- An attach request whose answer is an error, or whose answer arrives only if
it was not performed, has attached nothing. -/
theorem Call.links_of_not_attached {request : AttachRequest} {s : String}
    (hresponse : (call.perform (.attach siteId request) loader).2 ≠ some .attached)
    (hanswered : call.admitted = true → call.transport ≠ .unanswered)
    (h : s ∈ (call.perform (.attach siteId request) loader).1.links) :
    call.process loader = loader ∧ s ∈ loader.links := by
  rcases Call.perform_links h with h' | ⟨hlost, hadmitted, r, hr⟩
  · exact h'
  · have ht : call.transport = .answered := by
      cases ht : call.transport with
      | lost => exact absurd ht hlost
      | unanswered => exact absurd ht (hanswered hadmitted)
      | answered => rfl
    unfold Call.perform Loader.handle at h hresponse
    rw [ht] at h hresponse
    simp only at h hresponse
    split at h
    · exact Call.process_links h
    · rename_i hnew
      rw [if_neg hnew] at hresponse
      exact absurd rfl hresponse

end

end NativeAgent
