import Arsonist.Library.History
import Arsonist.Library.Steps

/-! Lists that hold what is still to be done together with what was done, and that are cut when they
grow too long. What is to be done is looked up by an id, which need not be the only one of its kind;
serial numbers, which are given out in order, tell the records apart. -/
namespace Arsonist.Library.Backlog

variable {α κ : Type*} {id : α → κ} {pending : α → Bool} {serial : α → ℕ}
  {f : α → α} {k : κ} {l l' : List α} {a : α}

/-- One record, which was pending under an id, is pending no longer. -/
structure Finishes (id : α → κ) (pending : α → Bool) (k : κ) (l : List α) (a : α)
    (l' : List α) : Prop where
  id_eq : id a = k
  perm : (l.filter pending).Perm (a :: l'.filter pending)

section Finish
variable [DecidableEq κ]

/-- The first record that is pending under an id is changed. -/
def finishFirst (id : α → κ) (pending : α → Bool) (f : α → α) (k : κ) :
    List α → Option (α × List α)
  | [] => none
  | a :: l =>
    if id a = k ∧ pending a then some (f a,f a :: l)
    else (finishFirst id pending f k l).map fun x => (x.1,a :: x.2)

theorem finishes_finishFirst (hf : ∀ a, pending (f a) = false) {b : α}
    (h : finishFirst id pending f k l = some (b,l')) :
    ∃ a, b = f a ∧ Finishes id pending k l a l' := by
  induction l generalizing l' with
  | nil => cases h
  | cons x l ih =>
    rw [finishFirst] at h
    split_ifs at h with hx
    · obtain ⟨rfl,rfl⟩ := Prod.mk.inj (Option.some.inj h)
      refine ⟨x,rfl,hx.1,?_⟩
      rw [List.filter_cons_of_pos hx.2, List.filter_cons_of_neg (by rw [hf]; decide)]
    · obtain ⟨⟨b',m⟩,hrest,heq⟩ := Option.map_eq_some_iff.mp h
      obtain ⟨rfl,rfl⟩ := Prod.mk.inj heq
      obtain ⟨a,hb,hid,hperm⟩ := ih hrest
      refine ⟨a,hb,hid,?_⟩
      by_cases hpending : pending x = true
      · rw [List.filter_cons_of_pos hpending, List.filter_cons_of_pos hpending]
        exact (hperm.cons x).trans (List.Perm.swap a x _)
      · rw [List.filter_cons_of_neg hpending, List.filter_cons_of_neg hpending]
        exact hperm

theorem finishFirst_eq_none_iff :
    finishFirst id pending f k l = none ↔ k ∉ (l.filter pending).map id := by
  induction l with
  | nil => exact iff_of_true rfl List.not_mem_nil
  | cons x l ih =>
    rw [finishFirst]
    split_ifs with hx
    · refine iff_of_false not_false (not_not.mpr ?_)
      rw [List.filter_cons_of_pos hx.2, List.map_cons, hx.1]
      exact List.mem_cons_self
    · rw [Option.map_eq_none_iff, ih]
      by_cases hpending : pending x = true
      · have hne : k ≠ id x := fun hk => hx ⟨hk.symm,hpending⟩
        rw [List.filter_cons_of_pos hpending, List.map_cons, List.mem_cons, or_iff_right hne]
      · rw [List.filter_cons_of_neg hpending]

/-- If what is pending has these ids, the first of them can be finished, and the rest is left. -/
theorem exists_finishFirst {ks : List κ} (hf : ∀ a, pending (f a) = false)
    (h : ((l.filter pending).map id).Perm (k :: ks)) :
    ∃ a l', finishFirst id pending f k l = some (f a,l') ∧ Finishes id pending k l a l' ∧
      ((l'.filter pending).map id).Perm ks := by
  have hmem : k ∈ (l.filter pending).map id := h.symm.subset List.mem_cons_self
  cases hfinish : finishFirst id pending f k l with
  | none => exact absurd hmem (finishFirst_eq_none_iff.mp hfinish)
  | some x =>
    obtain ⟨b,l'⟩ := x
    obtain ⟨a,rfl,hfinishes⟩ := finishes_finishFirst hf hfinish
    refine ⟨a,l',rfl,hfinishes,?_⟩
    have hids := (hfinishes.perm.map id).symm.trans h
    rw [List.map_cons, hfinishes.id_eq] at hids
    exact hids.cons_inv

end Finish

section Accounts
variable {accepted lost : ℕ} {finished : List ℕ} {n : ℤ}

/-- Cutting the list with one more record loses something that is pending. -/
def Loses (pending : α → Bool) (n : ℤ) (l : List α) (a : α) : Prop :=
  ((truncated n (l ++ [a])).filter pending).length < ((l ++ [a]).filter pending).length

instance : Decidable (Loses pending n l a) := inferInstanceAs (Decidable (_ < _))

/-- Everything that was accepted is finished or pending. -/
def Complete (pending : α → Bool) (serial : α → ℕ) (l : List α) (accepted : ℕ)
    (finished : List ℕ) : Prop :=
  (List.range accepted).Perm (finished ++ (l.filter pending).map serial)

theorem complete_nil : Complete pending serial [] 0 [] := List.Perm.refl _

theorem Complete.accept (h : Complete pending serial l accepted finished)
    (ha : pending a = true) (hserial : serial a = accepted) (hkeep : ¬ Loses pending n l a) :
    Complete pending serial (truncated n (l ++ [a])) (accepted+1) finished := by
  have hfilter : (truncated n (l ++ [a])).filter pending = (l ++ [a]).filter pending :=
    ((truncated_sublist n (l ++ [a])).filter pending).eq_of_length
      (Nat.le_antisymm ((truncated_sublist n (l ++ [a])).filter pending).length_le
        (Nat.le_of_not_lt hkeep))
  rw [Complete, hfilter, List.filter_append, List.filter_singleton, ha, List.range_succ, cond_true,
    List.map_append, List.map_singleton, hserial, ← List.append_assoc]
  exact h.append_right _

theorem Complete.finish (h : Complete pending serial l accepted finished)
    (hfinish : Finishes id pending k l a l') :
    Complete pending serial l' accepted (finished ++ [serial a]) := by
  have hperm := hfinish.perm.map serial
  rw [List.map_cons] at hperm
  refine h.trans ((hperm.append_left finished).trans ?_)
  rw [List.append_assoc]
  exact List.Perm.refl _

/-- What is finished or pending, and what was lost, was accepted. -/
def Covered (pending : α → Bool) (l : List α) (accepted finished lost : ℕ) : Prop :=
  finished+(l.filter pending).length+lost ≤ accepted

theorem Covered.accept {finished : ℕ} (h : Covered pending l accepted finished lost) (a : α) :
    Covered pending (truncated n (l ++ [a])) (accepted+1) finished
      (lost+if Loses pending n l a then 1 else 0) := by
  have hle := ((truncated_sublist n (l ++ [a])).filter pending).length_le
  have hone : ((l ++ [a]).filter pending).length ≤ (l.filter pending).length+1 := by
    rw [List.filter_append, List.length_append]
    exact Nat.add_le_add_left (List.length_filter_le _ _) _
  rw [Covered] at h ⊢
  split_ifs with hloses
  · rw [Loses] at hloses
    omega
  · omega

theorem Covered.finish {finished : ℕ} (h : Covered pending l accepted finished lost)
    (hfinish : Finishes id pending k l a l') : Covered pending l' accepted (finished+1) lost := by
  have hlength := hfinish.perm.length_eq
  rw [List.length_cons] at hlength
  rw [Covered] at h ⊢
  omega

end Accounts
end Arsonist.Library.Backlog

/-! Machines that keep a backlog: whatever else they do, each step accepts a record, finishes one
or leaves the list alone. What a run accepted, what it finished and what is left are read off its
steps, and compared. -/
namespace Arsonist.Library.Backlog

/-- The backlog of a state. -/
structure View (α : Type*) where
  records : List α := []
  accepted : ℕ := 0
  total : ℕ := 0

variable {α κ σ ι : Type*} {id : α → κ} {pending : α → Bool} {serial : α → ℕ} {n : ℤ}

/-- A step, with the numbers of what it accepts and of what it finishes, and whether it loses
something. -/
inductive Moves (id : α → κ) (pending : α → Bool) (serial : α → ℕ) (n : ℤ) :
    View α → Option ℕ → Option ℕ → Prop → View α → Prop
  | accept {v : View α} {a : α} : pending a = true → serial a = v.accepted →
      Moves id pending serial n v (some (serial a)) none (Loses pending n v.records a)
        ⟨truncated n (v.records ++ [a]),v.accepted+1,v.total⟩
  | finish {v : View α} {k : κ} {a : α} {l : List α} : Finishes id pending k v.records a l →
      Moves id pending serial n v none (some (serial a)) False ⟨l,v.accepted,v.total+1⟩
  | idle {v : View α} : Moves id pending serial n v none none False v

/-- The accounts of what was accepted and finished so far. -/
structure Accounted (pending : α → Bool) (accepted finished : List ℕ) (lost : ℕ) (v : View α) :
    Prop where
  accepted_eq : accepted = List.range v.accepted
  total : v.total = finished.length
  covered : Covered pending v.records v.accepted finished.length lost

section Step
variable {v v' : View α} {accepts finishes : Option ℕ} {loses : Prop} {accepted finished : List ℕ}
  {lost : ℕ}

theorem Accounted.step [Decidable loses] (h : Accounted pending accepted finished lost v)
    (hmoves : Moves id pending serial n v accepts finishes loses v') :
    Accounted pending (accepted ++ accepts.toList) (finished ++ finishes.toList)
      (lost+if loses then 1 else 0) v' := by
  cases hmoves with
  | @accept a hpending hserial =>
    rw [Option.toList_some, Option.toList_none, List.append_nil, hserial, h.accepted_eq]
    refine ⟨List.range_succ.symm,h.total,?_⟩
    convert h.covered.accept (n := n) a
  | finish hfinishes =>
    rw [if_neg not_false, Option.toList_none, List.append_nil, Option.toList_some]
    refine ⟨h.accepted_eq,?_,?_⟩
    · rw [List.length_append, ← h.total]
      rfl
    · rw [List.length_append]
      exact h.covered.finish hfinishes
  | idle =>
    rw [if_neg not_false, Option.toList_none, List.append_nil, List.append_nil]
    exact h

theorem Complete.step (h : Complete pending serial v.records v.accepted finished)
    (hmoves : Moves id pending serial n v accepts finishes loses v') (hkeep : ¬ loses) :
    Complete pending serial v'.records v'.accepted (finished ++ finishes.toList) := by
  cases hmoves with
  | accept hpending hserial =>
    rw [Option.toList_none, List.append_nil]
    exact h.accept hpending hserial hkeep
  | finish hfinishes => exact h.finish hfinishes
  | idle =>
    rw [Option.toList_none, List.append_nil]
    exact h

end Step

/-- A machine that keeps a backlog while an invariant holds. -/
structure Keeps (id : α → κ) (pending : α → Bool) (serial : α → ℕ) (n : ℤ) (I : σ → Prop)
    (exec : σ → ι → σ) (view : σ → View α) (accepts finishes : σ → ι → Option ℕ)
    (loses : σ → ι → Prop) : Prop where
  invariant : ∀ s i, I s → I (exec s i)
  moves : ∀ s i, I s → Moves id pending serial n (view s) (accepts s i) (finishes s i) (loses s i)
    (view (exec s i))

namespace Keeps
variable {I : σ → Prop} {exec : σ → ι → σ} {view : σ → View α} {accepts finishes : σ → ι → Option ℕ}
  {loses : σ → ι → Prop} {s : σ}

theorem accounted [∀ s i, Decidable (loses s i)]
    (h : Keeps id pending serial n I exec view accepts finishes loses) (hs : I s)
    (hnew : view s = {}) (is : List ι) :
    Accounted pending (emitted exec accepts s is) (emitted exec finishes s is)
      (occurrences exec loses s is) (view (run exec s is)) := by
  induction is using List.reverseRecOn with
  | nil =>
    rw [run_nil, hnew]
    exact ⟨rfl,rfl,Nat.le_refl 0⟩
  | append_singleton is i ih =>
    rw [emitted_concat, emitted_concat, occurrences_concat, run_concat]
    exact ih.step (h.moves _ i (run_always h.invariant hs is))

theorem complete (h : Keeps id pending serial n I exec view accepts finishes loses) (hs : I s)
    (hnew : view s = {}) {is : List ι} (hkeep : Along exec (fun s i => ¬ loses s i) s is) :
    Complete pending serial (view (run exec s is)).records (view (run exec s is)).accepted
      (emitted exec finishes s is) := by
  induction is using List.reverseRecOn with
  | nil =>
    rw [run_nil, hnew]
    exact complete_nil
  | append_singleton is i ih =>
    obtain ⟨his,hi,-⟩ := (along_append _ s is [i]).mp hkeep
    rw [emitted_concat, run_concat]
    exact (ih his).step (h.moves _ i (run_always h.invariant hs is)) hi

end Keeps

/-- Everything that is pending was finished, and counted. -/
structure Cleared (pending : α → Bool) (serial : α → ℕ) (v : View α) (results : List ℕ)
    (v' : View α) : Prop where
  results : results.Perm ((v.records.filter pending).map serial)
  none : v'.records.filter pending = []
  total : v'.total = v.total+(v.records.filter pending).length

theorem cleared_of_nil {v : View α} (h : v.records.filter pending = []) :
    Cleared pending serial v [] v := by
  refine ⟨?_,h,?_⟩
  · rw [h]
    exact List.Perm.refl _
  · rw [h]
    rfl

/-- One record is finished, and then the others. -/
theorem Cleared.cons {v v' : View α} {l : List α} {k : κ} {a : α} {results : List ℕ}
    (h : Cleared pending serial ⟨l,v.accepted,v.total+1⟩ results v')
    (hfinishes : Finishes id pending k v.records a l) :
    Cleared pending serial v (serial a :: results) v' where
  results := (h.results.cons (serial a)).trans (hfinishes.perm.map serial).symm
  none := h.none
  total := by
    have hlength := hfinishes.perm.length_eq
    rw [List.length_cons] at hlength
    have htotal := h.total
    dsimp only at htotal
    omega

/-- What is to be finished after a run is finished, and nothing else. -/
structure Settled (pending : α → Bool) (accepted finished results : List ℕ) (v : View α) :
    Prop where
  once : results.Nodup
  outstanding : ∀ n, n ∈ results ↔ n ∈ accepted ∧ n ∉ finished
  none : ∀ r ∈ v.records, pending r = false
  total : v.total = accepted.length

/-- Where the backlog is cleared after a run, everything that was accepted is finished exactly if
the run lost nothing. -/
theorem Keeps.settled_iff {I : σ → Prop} {exec : σ → ι → σ} {view : σ → View α}
    {accepts finishes : σ → ι → Option ℕ} {loses : σ → ι → Prop} {s : σ}
    (h : Keeps id pending serial n I exec view accepts finishes loses) (hs : I s)
    (hnew : view s = {}) (is : List ι) {results : List ℕ} {v : View α}
    (hcleared : Cleared pending serial (view (run exec s is)) results v) :
    Settled pending (emitted exec accepts s is) (emitted exec finishes s is) results v ↔
      Along exec (fun s i => ¬ loses s i) s is := by
  classical
  have hrun := h.accounted hs hnew is
  have hcovered := hrun.covered
  rw [Covered, ← hrun.total] at hcovered
  have htotal := hcleared.total
  have haccepted := congrArg List.length hrun.accepted_eq
  rw [List.length_range] at haccepted
  constructor
  · intro hsettled
    have hall := hsettled.total
    rw [← occurrences_eq_zero]
    omega
  · intro hkeep
    have hcomplete := h.complete hs hnew hkeep
    rw [Complete, ← hrun.accepted_eq] at hcomplete
    have hcount := hcomplete.length_eq
    rw [List.length_append, List.length_map, ← hrun.total] at hcount
    have hnodup : (emitted exec accepts s is).Nodup := by
      rw [hrun.accepted_eq]
      exact List.nodup_range
    obtain ⟨-,hpending,hdisjoint⟩ := List.nodup_append.mp (hcomplete.nodup_iff.mp hnodup)
    refine ⟨hcleared.results.nodup_iff.mpr hpending,fun n => ?_,fun r hr => ?_,?_⟩
    · rw [hcleared.results.mem_iff, hcomplete.mem_iff, List.mem_append]
      constructor
      · intro hn
        exact ⟨Or.inr hn,fun hfinished => hdisjoint n hfinished n hn rfl⟩
      · rintro ⟨hn,hnot⟩
        exact hn.resolve_left hnot
    · exact Bool.eq_false_of_not_eq_true (List.filter_eq_nil_iff.mp hcleared.none r hr)
    · omega

end Arsonist.Library.Backlog
