import Arsonist.Library.Runs
import Mathlib.Logic.Relation

/-! Processes that share a state. Each process is its program point with its local variables;
a step of one process changes the shared state and that process alone. -/
namespace Arsonist.Library

/-- The shared state and the processes, in the order in which they were started. -/
structure Pool (σ π : Type*) where
  shared : σ
  procs : List π := []

/-- What the steps of a pool do: an event from outside, the start of a process on a request,
and the next step of a process on some input. -/
structure Program (σ π ε ρ ι : Type*) where
  outside : σ → ε → σ
  enter : ρ → π
  next : σ → π → ι → σ × π

inductive PoolEvent (ε ρ ι : Type*)
  | outside (e : ε)
  | start (request : ρ)
  | advance (i : ℕ) (input : ι)

namespace Pool
variable {σ π ε ρ ι : Type*} (prog : Program σ π ε ρ ι)

def step (s : Pool σ π) : PoolEvent ε ρ ι → Pool σ π
  | .outside e => { s with shared := prog.outside s.shared e }
  | .start request => { s with procs := s.procs ++ [prog.enter request] }
  | .advance i input =>
    match s.procs[i]? with
    | none => s
    | some p => ⟨(prog.next s.shared p input).1,s.procs.set i (prog.next s.shared p input).2⟩

variable {prog} {s : Pool σ π}

theorem step_advance {i : ℕ} {p : π} (h : s.procs[i]? = some p) (input : ι) :
    s.step prog (.advance i input) =
      ⟨(prog.next s.shared p input).1,s.procs.set i (prog.next s.shared p input).2⟩ := by
  rw [step, h]

theorem step_advance_none {i : ℕ} (h : s.procs[i]? = none) (input : ι) :
    s.step prog (.advance i input) = s := by
  rw [step, h]

theorem mem_of_getElem? {i : ℕ} {p : π} (h : s.procs[i]? = some p) : p ∈ s.procs :=
  List.mem_of_getElem? h

/-- After a step of process `i`, a process is the changed one or an old one. -/
theorem mem_set {i : ℕ} {p q : π} {l : List π} (h : q ∈ l.set i p) : q = p ∨ q ∈ l := by
  obtain h | h := List.mem_or_eq_of_mem_set h
  · exact Or.inr h
  · exact Or.inl h

/-- An invariant of the shared state and a property of each process relative to it. -/
def Holds (I : σ → Prop) (L : σ → π → Prop) (s : Pool σ π) : Prop :=
  I s.shared ∧ ∀ p ∈ s.procs, L s.shared p

variable {I : σ → Prop} {L : σ → π → Prop}

theorem Holds.outside {e : ε} (h : s.Holds I L) (hI : I (prog.outside s.shared e))
    (hL : ∀ p, L s.shared p → L (prog.outside s.shared e) p) :
    (s.step prog (.outside e)).Holds I L := ⟨hI,fun p hp => hL p (h.2 p hp)⟩

theorem Holds.start {r : ρ} (h : s.Holds I L) (hL : L s.shared (prog.enter r)) :
    (s.step prog (.start r)).Holds I L := by
  refine ⟨h.1,fun p hp => ?_⟩
  obtain hp | hp := List.mem_append.mp hp
  · exact h.2 p hp
  · rw [List.mem_singleton.mp hp]
    exact hL

/-- The process that takes the step keeps its property, and so do all others. -/
theorem Holds.advance {i : ℕ} {input : ι} (h : s.Holds I L)
    (hnext : ∀ p, s.procs[i]? = some p → L s.shared p →
      I (prog.next s.shared p input).1 ∧
      L (prog.next s.shared p input).1 (prog.next s.shared p input).2 ∧
      ∀ q, L s.shared q → L (prog.next s.shared p input).1 q) :
    (s.step prog (.advance i input)).Holds I L := by
  cases hp : s.procs[i]? with
  | none =>
    rw [step_advance_none hp]
    exact h
  | some p =>
    rw [step_advance hp]
    obtain ⟨hI,hp',hq⟩ := hnext p hp (h.2 p (mem_of_getElem? hp))
    refine ⟨hI,fun q hmem => ?_⟩
    obtain rfl | hold := mem_set hmem
    · exact hp'
    · exact hq q (h.2 q hold)

/-- The other processes have one with the property. -/
def Others (s : Pool σ π) (i : ℕ) (P : π → Prop) : Prop := ∃ q ∈ s.procs.eraseIdx i, P q

instance {i : ℕ} {P : π → Prop} [DecidablePred P] : Decidable (s.Others i P) :=
  inferInstanceAs (Decidable (∃ q ∈ s.procs.eraseIdx i, P q))

/-- A process with the property is the one that takes the step or one of the others. -/
theorem exists_iff_others {i : ℕ} {p : π} (h : s.procs[i]? = some p) (P : π → Prop) :
    (∃ q ∈ s.procs, P q) ↔ P p ∨ s.Others i P := by
  constructor
  · rintro ⟨q,hq,hP⟩
    obtain ⟨j,hj⟩ := List.getElem?_of_mem hq
    by_cases hij : j = i
    · rw [hij, h] at hj
      obtain rfl := Option.some.inj hj
      exact Or.inl hP
    · exact Or.inr ⟨q,List.mem_eraseIdx_iff_getElem?.mpr ⟨j,hij,hj⟩,hP⟩
  · rintro (hP | ⟨q,hq,hP⟩)
    · exact ⟨p,mem_of_getElem? h,hP⟩
    · exact ⟨q,List.mem_of_mem_eraseIdx hq,hP⟩

/-- The same after the step. -/
theorem exists_set_iff_others {i : ℕ} {p p' : π} (h : s.procs[i]? = some p) (P : π → Prop) :
    (∃ q ∈ s.procs.set i p', P q) ↔ P p' ∨ s.Others i P := by
  obtain ⟨hi,-⟩ := List.getElem?_eq_some_iff.mp h
  have hset : (s.procs.set i p')[i]? = some p' := by
    rw [List.getElem?_set_self hi]
  have hothers : (s.procs.set i p').eraseIdx i = s.procs.eraseIdx i := List.eraseIdx_set_eq
  have hiff := exists_iff_others (s := ⟨s.shared,s.procs.set i p'⟩) hset P
  rwa [Others, hothers] at hiff

/-- A condition on the steps of the processes, at the pool in which they are taken. -/
def AtAdvance (C : Pool σ π → ℕ → π → ι → Prop) (s : Pool σ π) : PoolEvent ε ρ ι → Prop
  | .advance i input => ∀ p, s.procs[i]? = some p → C s i p input
  | _ => True

instance {C : Pool σ π → ℕ → π → ι → Prop} [∀ s i p input, Decidable (C s i p input)]
    (s : Pool σ π) (e : PoolEvent ε ρ ι) : Decidable (AtAdvance C s e) :=
  match e with
  | .outside _ => .isTrue trivial
  | .start _ => .isTrue trivial
  | .advance i input =>
    match h : s.procs[i]? with
    | none => .isTrue fun p hp => by rw [h] at hp; cases hp
    | some p => decidable_of_iff (C s i p input)
      ⟨fun hC q hq => by rw [h] at hq; cases hq; exact hC,fun hall => hall p h⟩

/-- A step of a process has a property exactly when the process meets a condition, if the steps
of the processes that exist do, and if it has the property to do nothing. -/
theorem advance_iff_atAdvance {R : Pool σ π → Prop} {C : Pool σ π → ℕ → π → ι → Prop} {i : ℕ}
    {input : ι} (hidle : R s)
    (hnext : ∀ p, s.procs[i]? = some p → (R (s.step prog (.advance i input)) ↔ C s i p input)) :
    R (s.step prog (.advance i input)) ↔
      AtAdvance C s (.advance i input : PoolEvent ε ρ ι) := by
  rw [AtAdvance]
  cases hp : s.procs[i]? with
  | none =>
    rw [step_advance_none hp]
    refine iff_of_true hidle fun p hi => ?_
    cases hi
  | some p =>
    rw [hnext p hp]
    refine ⟨fun hC q hq => ?_,fun hC => hC p rfl⟩
    exact Option.some.inj hq ▸ hC

section Simulation
variable {σ' π' : Type*} {prog' : Program σ' π' ε ρ ι} {S : σ → σ' → Prop} {T : π → π' → Prop}
  {t : Pool σ' π'}

/-- Two pools whose shared states correspond, and whose processes do one by one. -/
def Simulates (S : σ → σ' → Prop) (T : π → π' → Prop) (s : Pool σ π) (t : Pool σ' π') : Prop :=
  S s.shared t.shared ∧ List.Forall₂ T s.procs t.procs

theorem forall₂_set {l : List π} {m : List π'} (h : List.Forall₂ T l m) {p : π} {q : π'}
    (hpq : T p q) (i : ℕ) : List.Forall₂ T (l.set i p) (m.set i q) := by
  induction h generalizing i with
  | nil => exact List.Forall₂.nil
  | cons ha hl ih =>
    cases i with
    | zero => exact List.Forall₂.cons hpq hl
    | succ i => exact List.Forall₂.cons ha (ih i)

theorem forall₂_getElem? {l : List π} {m : List π'} (h : List.Forall₂ T l m) (i : ℕ) :
    (l[i]? = none ∧ m[i]? = none) ∨ ∃ p q, l[i]? = some p ∧ m[i]? = some q ∧ T p q := by
  induction h generalizing i with
  | nil => exact Or.inl ⟨rfl,rfl⟩
  | cons ha hl ih =>
    cases i with
    | zero => exact Or.inr ⟨_,_,rfl,rfl,ha⟩
    | succ i => exact ih i

/-- A process and the one that corresponds to it take their steps together. -/
theorem Simulates.advance (h : Simulates S T s t)
    (hnext : ∀ x y p q (input : ι), S x y → T p q →
      S (prog.next x p input).1 (prog'.next y q input).1 ∧
        T (prog.next x p input).2 (prog'.next y q input).2) (i : ℕ) (input : ι) :
    Simulates S T (s.step prog (.advance i input)) (t.step prog' (.advance i input)) := by
  obtain ⟨hp,hq⟩ | ⟨p,q,hp,hq,hpq⟩ := forall₂_getElem? h.2 i
  · rw [step_advance_none hp, step_advance_none hq]
    exact h
  · rw [step_advance hp, step_advance hq]
    obtain ⟨hshared,htask⟩ := hnext _ _ p q input h.1 hpq
    exact ⟨hshared,forall₂_set h.2 htask i⟩

theorem Simulates.start (h : Simulates S T s t) {r : ρ}
    (hr : T (prog.enter r) (prog'.enter r)) :
    Simulates S T (s.step prog (.start r)) (t.step prog' (.start r)) :=
  ⟨h.1,List.rel_append h.2 (List.Forall₂.cons hr List.Forall₂.nil)⟩

end Simulation

end Pool

/-- A step of a process on its own, with the shared state to itself. -/
def Program.Alone {σ π ε ρ ι : Type*} (prog : Program σ π ε ρ ι) (input : ι) (x y : σ × π) :
    Prop :=
  prog.next x.1 x.2 input = y

/-- What a process does on its own, it does in a pool where no other process takes a step. -/
theorem Pool.run_alone {σ π ε ρ ι : Type*} {prog : Program σ π ε ρ ι} {input : ι} {i : ℕ}
    {x y : σ × π} (h : Relation.ReflTransGen (prog.Alone input) x y) {procs : List π}
    (hi : procs[i]? = some x.2) :
    ∃ n, run (Pool.step prog) ⟨x.1,procs⟩ (List.replicate n (.advance i input)) =
      ⟨y.1,procs.set i y.2⟩ := by
  induction h using Relation.ReflTransGen.head_induction_on generalizing procs with
  | refl =>
    refine ⟨0,?_⟩
    obtain ⟨hlt,hget⟩ := List.getElem?_eq_some_iff.mp hi
    rw [List.replicate_zero, run_nil, ← hget, List.set_getElem_self]
  | head hstep _ ih =>
    obtain ⟨hlt,-⟩ := List.getElem?_eq_some_iff.mp hi
    obtain ⟨n,hn⟩ := ih (List.getElem?_set_self hlt)
    refine ⟨n+1,?_⟩
    rw [List.replicate_succ, run_cons, Pool.step_advance hi]
    rw [Program.Alone] at hstep
    rw [hstep, hn, List.set_set]

end Arsonist.Library
