/-
LiveProbe/Interleaving.lean

Programs made of atomic steps on a shared state, any number of them under way
at once, their steps in any order.

A `Program` is what is left of a run of code: it is done, or it waits to make
one atomic step and goes on as the state it found tells it.  A step may leave
observations in the trace of the system.  The environment moves the shared state too.

An invariant of such a system speaks about the state, the trace and one total
of shares: each program owns a share of the total and may change it with its
own steps, whatever the others own (`Keeps`).  Programs that keep an invariant
alone keep it together (`Run.sound`).
-/
import Mathlib.Algebra.Group.Submonoid.BigOperators
import Mathlib.Logic.Relation

namespace Interleaving

universe u

variable {σ ε α β : Type}

/-! ### Programs -/

inductive Program (σ ε : Type) (α : Type) where
  | done (a : α)
  | atomic (run : σ → σ × List ε) (rest : σ → Program σ ε α)

namespace Program

def bind : Program σ ε α → (α → Program σ ε β) → Program σ ε β
  | .done a, k => k a
  | .atomic run rest, k => .atomic run fun s => (rest s).bind k

instance : Monad (Program σ ε) where
  pure := .done
  bind := bind

/-- One atomic step, with its answer and what it lets be seen. -/
def act (answer : σ → α) (next : σ → σ) (seen : σ → List ε) : Program σ ε α :=
  .atomic (fun s => (next s, seen s)) fun s => .done (answer s)

/-- An atomic step that leaves the state alone. -/
def read (answer : σ → α) : Program σ ε α := act answer id fun _ => []

def isDone : Program σ ε α → Bool
  | .done _ => true
  | .atomic _ _ => false

end Program

/-! ### Systems -/

structure System (σ ε α : Type) where
  shared : σ
  trace : List ε
  programs : List (Program σ ε α)

/-- All programs have come to their end. -/
def System.Quiescent (c : System σ ε α) : Prop := ∀ p ∈ c.programs, p.isDone = true

instance (c : System σ ε α) : Decidable c.Quiescent :=
  inferInstanceAs (Decidable (∀ p ∈ c.programs, p.isDone = true))

/-- The next step of one program. -/
def System.advance (i : ℕ) (c : System σ ε α) : System σ ε α :=
  match c.programs[i]? with
  | some (.atomic run rest) =>
    { shared := (run c.shared).1
      trace := c.trace ++ (run c.shared).2
      programs := c.programs.set i (rest c.shared) }
  | _ => c

/-- A step of the system: `moves` is what the environment may do to the shared
state, `begins` which programs may start, with what is seen of their start. -/
inductive Step (moves : σ → σ → Prop) (begins : ε → Program σ ε α → Prop) :
    System σ ε α → System σ ε α → Prop
  | environment {c : System σ ε α} {s : σ} (h : moves c.shared s) : Step moves begins c { c with shared := s }
  | start {c : System σ ε α} {e : ε} {p : Program σ ε α} (h : begins e p) :
      Step moves begins c { c with trace := c.trace ++ [e], programs := c.programs ++ [p] }
  | advance (c : System σ ε α) (i : ℕ) : Step moves begins c (c.advance i)

/-- Any number of steps. -/
abbrev Run (moves : σ → σ → Prop) (begins : ε → Program σ ε α → Prop) :
    System σ ε α → System σ ε α → Prop :=
  Relation.ReflTransGen (Step moves begins)

/-- Several steps of programs, in the order given. -/
theorem Run.schedule {moves : σ → σ → Prop} {begins : ε → Program σ ε α → Prop}
    (c : System σ ε α) (order : List ℕ) :
    Run moves begins c (order.foldl (fun c i => c.advance i) c) := by
  induction order generalizing c with
  | nil => exact .refl
  | cons i order ih => exact (ih (c.advance i)).head (.advance c i)

/-- Several programs of one kind start. -/
theorem Run.starts {moves : σ → σ → Prop} {begins : ε → Program σ ε α → Prop} {e : ε} {p : Program σ ε α}
    (h : begins e p) (c : System σ ε α) (n : ℕ) :
    Run moves begins c
      { c with trace := c.trace ++ List.replicate n e, programs := c.programs ++ List.replicate n p } := by
  induction n with
  | zero => simpa using .refl
  | succ n ih =>
    have hstep := ih.tail (.start h)
    rw [List.append_assoc, List.append_assoc, ← List.replicate_succ', ← List.replicate_succ'] at hstep
    exact hstep

/-- What was seen stays seen. -/
theorem Run.trace_prefix {moves : σ → σ → Prop} {begins : ε → Program σ ε α → Prop} {c c' : System σ ε α}
    (h : Run moves begins c c') : c.trace <+: c'.trace := by
  induction h with
  | refl => exact List.prefix_refl _
  | tail _ hstep ih =>
    refine ih.trans ?_
    cases hstep with
    | environment _ => exact List.prefix_refl _
    | start _ => exact List.prefix_append _ _
    | advance i =>
      unfold System.advance
      split
      · exact List.prefix_append _ _
      · exact List.prefix_refl _

/-! ### Keeping an invariant -/

section
variable {L : Type u} [AddCommMonoid L]
variable {I : σ → List ε → L → Prop} {Q : α → L → Prop} {R : β → L → Prop}

/-- Owning the share `l` of the total, `p` keeps the invariant with every step,
and stops with an answer and a share of which `Q` holds. -/
def Program.Keeps (I : σ → List ε → L → Prop) (Q : α → L → Prop) : Program σ ε α → L → Prop
  | .done a, l => Q a l
  | .atomic run rest, l => ∀ s t r, I s t (l + r) →
    ∃ l', I (run s).1 (t ++ (run s).2) (l' + r) ∧ (rest s).Keeps I Q l'

namespace Program

theorem keeps_pure {a : α} {l : L} (h : Q a l) : (pure a : Program σ ε α).Keeps I Q l := h

theorem Keeps.mono {p : Program σ ε α} {Q' : α → L → Prop} {l : L} (h : p.Keeps I Q l)
    (hQ : ∀ a l, Q a l → Q' a l) : p.Keeps I Q' l := by
  induction p generalizing l with
  | done a => exact hQ a l h
  | atomic run rest ih =>
    intro s t r hI
    obtain ⟨l', hI', hrest⟩ := h s t r hI
    exact ⟨l', hI', ih s hrest⟩

theorem Keeps.bind {p : Program σ ε α} {k : α → Program σ ε β} {l : L}
    (h : p.Keeps I (fun a l => (k a).Keeps I R l) l) : (p >>= k).Keeps I R l := by
  show (p.bind k).Keeps I R l
  induction p generalizing l with
  | done a => exact h
  | atomic run rest ih =>
    intro s t r hI
    obtain ⟨l', hI', hrest⟩ := h s t r hI
    exact ⟨l', hI', ih s hrest⟩

/-- A program that keeps the invariant, and what is done after it. -/
theorem Keeps.then {p : Program σ ε α} {k : α → Program σ ε β} {l : L} (h : p.Keeps I Q l)
    (hk : ∀ a l, Q a l → (k a).Keeps I R l) : (p >>= k).Keeps I R l :=
  .bind (h.mono hk)

theorem keeps_act {answer : σ → α} {next : σ → σ} {seen : σ → List ε} {l : L}
    (h : ∀ s t r, I s t (l + r) → ∃ l', I (next s) (t ++ seen s) (l' + r) ∧ Q (answer s) l') :
    (act answer next seen).Keeps I Q l :=
  h

/-- What a program leaves alone it may own. -/
theorem Keeps.frame {p : Program σ ε α} {l : L} (h : p.Keeps I Q l) (f : L) :
    p.Keeps I (fun a l' => ∃ l, l' = l + f ∧ Q a l) (l + f) := by
  induction p generalizing l with
  | done a => exact ⟨l, rfl, h⟩
  | atomic run rest ih =>
    intro s t r hI
    rw [add_assoc] at hI
    obtain ⟨l', hI', hrest⟩ := h s t (f + r) hI
    refine ⟨l' + f, ?_, ih s hrest⟩
    rw [add_assoc]
    exact hI'

/-- Reading changes nothing, so the share stays. -/
theorem keeps_read {answer : σ → α} {l : L} (h : ∀ s t r, I s t (l + r) → Q (answer s) l) :
    (read answer : Program σ ε α).Keeps I Q l := by
  refine keeps_act fun s t r hI => ⟨l, ?_, h s t r hI⟩
  rw [List.append_nil]
  exact hI

/-- The second program runs where the first answered that it may. -/
theorem Keeps.and {p q : Program σ ε Bool} {Q R : Bool → L → Prop} {l : L} (h : p.Keeps I Q l)
    (htrue : ∀ l, Q true l → q.Keeps I R l) (hfalse : ∀ l, Q false l → R false l) :
    (p <&&> q).Keeps I R l := by
  refine Keeps.then h fun b l hb => ?_
  cases b with
  | true => exact htrue l hb
  | false => exact hfalse l hb

end Program

/-- Every program of the system owns a share with which it keeps the invariant,
and the invariant holds of the total. -/
def System.Sound (I : σ → List ε → L → Prop) (Q : α → L → Prop) (c : System σ ε α) : Prop :=
  ∃ shares : List L, List.Forall₂ (fun p l => p.Keeps I Q l) c.programs shares ∧
    I c.shared c.trace shares.sum

/-- What the environment and the starts must leave alone. -/
structure Respects (moves : σ → σ → Prop) (begins : ε → Program σ ε α → Prop)
    (I : σ → List ε → L → Prop) (Q : α → L → Prop) : Prop where
  environment : ∀ {s s' t l}, moves s s' → I s t l → I s' t l
  start : ∀ {e p}, begins e p → ∃ l, p.Keeps I Q l ∧ ∀ s t r, I s t r → I s (t ++ [e]) (r + l)

variable {moves : σ → σ → Prop} {begins : ε → Program σ ε α → Prop} {c c' : System σ ε α}

/-- The share of one program, and what the others own. -/
theorem forall₂_getElem {p : Program σ ε α} {programs : List (Program σ ε α)} {shares : List L} {i : ℕ}
    (h : List.Forall₂ (fun p l => p.Keeps I Q l) programs shares) (hi : programs[i]? = some p) :
    ∃ l r, p.Keeps I Q l ∧ shares.sum = l + r ∧ ∀ p' l', p'.Keeps I Q l' →
      ∃ shares', List.Forall₂ (fun p l => p.Keeps I Q l) (programs.set i p') shares' ∧
        shares'.sum = l' + r := by
  induction h generalizing i with
  | nil => simp at hi
  | @cons q l programs shares hq h ih =>
    cases i with
    | zero =>
      simp only [List.getElem?_cons_zero, Option.some.injEq] at hi
      subst hi
      exact ⟨l, shares.sum, hq, List.sum_cons, fun p' l' hp' => ⟨l' :: shares, .cons hp' h, List.sum_cons⟩⟩
    | succ i =>
      simp only [List.getElem?_cons_succ] at hi
      obtain ⟨m, r, hm, hsum, hset⟩ := ih hi
      refine ⟨m, l + r, hm, ?_, fun p' l' hp' => ?_⟩
      · rw [List.sum_cons, hsum, add_left_comm]
      · obtain ⟨shares', hshares, hsum'⟩ := hset p' l' hp'
        exact ⟨l :: shares', .cons hq hshares, by rw [List.sum_cons, hsum', add_left_comm]⟩

theorem System.Sound.advance (h : c.Sound I Q) (i : ℕ) : (c.advance i).Sound I Q := by
  obtain ⟨shares, hprograms, hI⟩ := h
  unfold System.advance
  split
  · rename_i run rest hi
    obtain ⟨l, r, hkeeps, hsum, hset⟩ := forall₂_getElem hprograms hi
    rw [hsum] at hI
    obtain ⟨l', hI', hrest⟩ := hkeeps c.shared c.trace r hI
    obtain ⟨shares', hshares, hsum'⟩ := hset _ l' hrest
    exact ⟨shares', hshares, by rw [hsum']; exact hI'⟩
  · exact ⟨shares, hprograms, hI⟩

theorem Step.sound (hr : Respects moves begins I Q) (hstep : Step moves begins c c') (h : c.Sound I Q) :
    c'.Sound I Q := by
  cases hstep with
  | environment hm =>
    obtain ⟨shares, hprograms, hI⟩ := h
    exact ⟨shares, hprograms, hr.environment hm hI⟩
  | start hb =>
    obtain ⟨shares, hprograms, hI⟩ := h
    obtain ⟨l, hkeeps, hstart⟩ := hr.start hb
    refine ⟨shares ++ [l], List.rel_append hprograms (.cons hkeeps .nil), ?_⟩
    rw [List.sum_append, List.sum_singleton]
    exact hstart _ _ _ hI
  | advance i => exact h.advance i

theorem Run.sound (hr : Respects moves begins I Q) (hrun : Run moves begins c c') (h : c.Sound I Q) :
    c'.Sound I Q := by
  induction hrun with
  | refl => exact h
  | tail _ hstep ih => exact hstep.sound hr ih

/-- A system without programs is sound where the invariant holds of nothing owned. -/
theorem System.sound_of_idle {s : σ} {t : List ε} (h : I s t 0) :
    (⟨s, t, []⟩ : System σ ε α).Sound I Q :=
  ⟨[], .nil, h⟩

/-- When all programs are done, the total is made of the shares they stopped with. -/
theorem System.Sound.quiescent (h : c.Sound I Q) (hq : c.Quiescent) (S : AddSubmonoid L)
    (hQ : ∀ a l, Q a l → l ∈ S) : ∃ l ∈ S, I c.shared c.trace l := by
  obtain ⟨shares, hprograms, hI⟩ := h
  refine ⟨shares.sum, S.list_sum_mem fun l hl => ?_, hI⟩
  obtain ⟨i, hi, rfl⟩ := List.getElem_of_mem hl
  have hlen := hprograms.length_eq
  have hkeeps := hprograms.get (hlen ▸ hi) hi
  have hdone := hq _ (List.get_mem c.programs ⟨i, hlen ▸ hi⟩)
  rw [List.get_eq_getElem] at hkeeps hdone
  cases hp : c.programs[i] with
  | done a =>
    rw [hp] at hkeeps
    exact hQ a _ hkeeps
  | atomic run rest =>
    rw [hp] at hdone
    cases hdone

end

end Interleaving
