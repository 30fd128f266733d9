import Arsonist.Library.Sums

/-! Calls that read a whole value, change their copy and write the copy back. A write takes away the
effects of the calls that have written since the copy was read. Here the value is the list of the
calls whose effects it holds, so that the order of the steps alone decides what is lost. -/
namespace Arsonist.Library.LostUpdates

variable {κ ι : Type*}

/-- The calls whose effects are in the value, and the calls that have written, in their order. -/
structure Cell (κ : Type*) where
  included : List κ := []
  log : List κ := []

/-- Where a call stands: its copy holds the effects of some calls, and was read after a number of
writes. -/
inductive Task (κ : Type*)
  | reading (call : κ)
  | holding (call : κ) (included : List κ) (readAt : ℕ)
  | done

def next (s : Cell κ) : Task κ → ι → Cell κ × Task κ
  | .reading call, _ => (s,.holding call s.included s.log.length)
  | .holding call included _, _ => (⟨included ++ [call],s.log ++ [call]⟩,.done)
  | .done, _ => (s,.done)

def program : Program (Cell κ) (Task κ) Empty κ ι where
  outside s _ := s
  enter := .reading
  next := next

section Kinds
variable (P : κ → Bool)

namespace Task

/-- A call of the kind has read and not yet written. -/
def Holding : Task κ → Prop
  | .holding call _ _ => P call = true
  | _ => False

/-- One of the kind has written since. -/
def Doomed (log : List κ) : Task κ → Prop
  | .holding call _ readAt => P call = true ∧ ∃ c ∈ log.drop readAt, P c = true
  | _ => False

instance (q : Task κ) : Decidable (q.Holding P) := by
  unfold Holding
  split <;> infer_instance

end Task

/-- The effects of all calls of the kind, and of no others. -/
def Whole (log included : List κ) : Prop :=
  included.countP P = log.countP P ∧ ∀ c ∈ included, P c = true

/-- The copy holds just the effects of the kind. -/
def Task.Ready (log : List κ) : Task κ → Prop
  | .holding call included _ => P call = true ∧ Whole P log included
  | _ => False

/-- A call of the kind writes when no other of the kind has written since it read. Another call
writes when one of the kind has read that will write over it. -/
def Orderly (s : Pool (Cell κ) (Task κ)) (_ : ℕ) (p : Task κ) (_ : ι) : Prop :=
  match p with
  | .holding call _ readAt =>
    if P call = true then ∀ c ∈ s.shared.log.drop readAt, P c = false
    else ∃ q ∈ s.procs, q.Holding P
  | _ => True

instance (s : Pool (Cell κ) (Task κ)) (i : ℕ) (p : Task κ) (x : ι) :
    Decidable (Orderly P s i p x) := by
  unfold Orderly
  split <;> infer_instance

end Kinds

variable {P : κ → Bool} {s : Pool (Cell κ) (Task κ)} {log included : List κ} {c : κ}

section Whole

theorem Whole.other (h : Whole P log included) (hc : P c = false) :
    Whole P (log ++ [c]) included := by
  refine ⟨?_,h.2⟩
  rw [List.countP_append, List.countP_singleton, hc, h.1]
  rfl

theorem Whole.own (h : Whole P log included) (hc : P c = true) :
    Whole P (log ++ [c]) (included ++ [c]) := by
  refine ⟨?_,?_⟩
  · rw [List.countP_append, List.countP_append, h.1]
  · intro d hd
    obtain hd | hd := List.mem_append.mp hd
    · exact h.2 d hd
    · rw [List.mem_singleton.mp hd]
      exact hc

theorem whole_iff_countP : Whole P log included ↔
    included.countP P = log.countP P ∧ included.countP (fun c => !P c) = 0 := by
  rw [Whole, List.countP_eq_zero]
  simp only [Bool.not_eq_true', Bool.not_eq_false]

/-- The effects of all calls are those of the calls of a kind and those of the others. -/
theorem whole_true_iff (P : κ → Bool)
    (hle : ∀ Q : κ → Bool, included.countP Q ≤ log.countP Q) :
    Whole (fun _ => true) log included ↔ included.countP P = log.countP P ∧
      included.countP (fun c => !P c) = log.countP (fun c => !P c) := by
  have hsplit : ∀ l : List κ, l.countP (fun _ => true) = l.countP P+l.countP fun c => !P c := by
    intro l
    rw [List.countP_true, List.length_eq_countP_add_countP P]
    simp only [Bool.not_eq_true, Bool.decide_eq_false]
  rw [Whole, hsplit, hsplit]
  have hP := hle P
  have hnot := hle fun c => !P c
  constructor
  · rintro ⟨hsum,-⟩
    omega
  · rintro ⟨hp,hq⟩
    exact ⟨by rw [hp, hq],fun _ _ => rfl⟩

theorem Task.Doomed.more {q : Task κ} (h : q.Doomed P log) (c : κ) : q.Doomed P (log ++ [c]) := by
  cases q with
  | holding call included readAt =>
    obtain ⟨hcall,d,hd,hP⟩ := h
    refine ⟨hcall,d,?_,hP⟩
    rw [List.drop_append]
    exact List.mem_append_left _ hd
  | reading call => exact h
  | done => exact h

theorem Task.Ready.other {q : Task κ} (h : q.Ready P log) (hc : P c = false) :
    q.Ready P (log ++ [c]) := by
  cases q with
  | holding call included readAt => exact ⟨h.1,h.2.other hc⟩
  | reading call => exact h
  | done => exact h

theorem Task.Ready.holding {q : Task κ} (h : q.Ready P log) : q.Holding P := by
  cases q with
  | holding call included readAt => exact h.1
  | reading call => exact h
  | done => exact h

theorem Task.Doomed.holding {q : Task κ} (h : q.Doomed P log) : q.Holding P := by
  cases q with
  | holding call included readAt => exact h.1
  | reading call => exact h
  | done => exact h

end Whole

/-- A copy holds effects of calls that had written when it was read. -/
def Copied (P : κ → Bool) (s : Cell κ) : Task κ → Prop
  | .holding _ included readAt =>
    readAt ≤ s.log.length ∧ included.countP P ≤ (s.log.take readAt).countP P
  | _ => True

/-- Nothing has effects before it has written. -/
def Base (P : κ → Bool) (s : Pool (Cell κ) (Task κ)) : Prop :=
  s.Holds (fun cell => cell.included.countP P ≤ cell.log.countP P) (Copied P)

theorem Copied.more {included' : List κ} {q : Task κ} (h : Copied P ⟨included,log⟩ q) (c : κ) :
    Copied P ⟨included',log ++ [c]⟩ q := by
  cases q with
  | holding call copy readAt =>
    obtain ⟨hlen,hcount⟩ := h
    refine ⟨?_,?_⟩
    · rw [List.length_append]
      exact Nat.le_add_right_of_le hlen
    · rwa [List.take_append_of_le_length hlen]
  | reading call => trivial
  | done => trivial

theorem countP_take_le (P : κ → Bool) (n : ℕ) (l : List κ) : (l.take n).countP P ≤ l.countP P :=
  (List.take_sublist n l).countP_le

theorem base_step (h : Base P s) (e : PoolEvent Empty κ ι) : Base P (s.step program e) := by
  cases e with
  | outside e => exact e.elim
  | start call => exact h.start trivial
  | advance i x =>
    refine h.advance fun p hp hL => ?_
    cases p with
    | reading call =>
      refine ⟨h.1,⟨le_rfl,?_⟩,fun q hq => hq⟩
      change s.shared.included.countP P ≤ (s.shared.log.take s.shared.log.length).countP P
      rw [List.take_length]
      exact h.1
    | holding call copy readAt =>
      refine ⟨?_,trivial,fun q hq => hq.more call⟩
      change (copy ++ [call]).countP P ≤ (s.shared.log ++ [call]).countP P
      rw [List.countP_append, List.countP_append]
      exact Nat.add_le_add_right (hL.2.trans (countP_take_le P _ _)) _
    | done => exact ⟨h.1,trivial,fun q hq => hq⟩

/-- No effect is in the value twice. -/
theorem countP_included_le (P : κ → Bool) (events : List (PoolEvent Empty κ ι)) :
    (run (Pool.step program) (⟨{},[]⟩ : Pool (Cell κ) (Task κ)) events).shared.included.countP P ≤
      (run (Pool.step program) (⟨{},[]⟩ : Pool (Cell κ) (Task κ)) events).shared.log.countP P := by
  have hstart : Base P (⟨{},[]⟩ : Pool (Cell κ) (Task κ)) := ⟨le_rfl,nofun⟩
  exact (run_always (I := Base P) (fun _ e h => base_step h e) hstart events).1

/-- Who holds a copy when one of its kind writes is doomed. -/
theorem doomed_of_holding {q : Task κ} (hq : q.Holding P) (hcopied : Copied P s.shared q)
    (hc : P c = true) : q.Doomed P (s.shared.log ++ [c]) := by
  cases q with
  | holding call copy readAt =>
    refine ⟨hq,c,?_,hc⟩
    rw [List.drop_append_of_le_length hcopied.1]
    exact List.mem_append_right _ (List.mem_singleton_self c)
  | reading call => exact hq
  | done => exact hq

/-- The value is whole, or will be when a copy is written that is at hand. Else one is at hand that
can only be written out of order. -/
def OnCourse (P : κ → Bool) (s : Pool (Cell κ) (Task κ)) : Prop :=
  (∃ q ∈ s.procs, q.Doomed P s.shared.log) ∨ (∃ q ∈ s.procs, q.Ready P s.shared.log) ∨
    Whole P s.shared.log s.shared.included ∧
      ∀ q ∈ s.procs, q.Holding P → q.Ready P s.shared.log

theorem onCourse_read (h : OnCourse P s) {i : ℕ} {call : κ}
    (hp : s.procs[i]? = some (.reading call)) (x : ι) :
    OnCourse P (s.step program (.advance i x)) := by
  rw [Pool.step_advance hp]
  obtain h | h | ⟨hwhole,hready⟩ := h
  · refine Or.inl ((Pool.exists_set_iff_others hp _).mpr (Or.inr ?_))
    exact ((Pool.exists_iff_others hp _).mp h).resolve_left id
  · refine Or.inr (Or.inl ((Pool.exists_set_iff_others hp _).mpr (Or.inr ?_)))
    exact ((Pool.exists_iff_others hp _).mp h).resolve_left id
  · refine Or.inr (Or.inr ⟨hwhole,fun q hq hholding => ?_⟩)
    obtain rfl | hq := Pool.mem_set hq
    · exact ⟨hholding,hwhole⟩
    · exact hready q hq hholding

/-- The writer is the only one of its kind, or else dooms the others. -/
theorem onCourse_write (h : OnCourse P s) (hbase : Base P s) {i : ℕ} {call : κ}
    {copy : List κ} {readAt : ℕ} (hp : s.procs[i]? = some (.holding call copy readAt))
    (hcall : P call = true) (hfresh : ∀ c ∈ s.shared.log.drop readAt, P c = false) (x : ι) :
    OnCourse P (s.step program (.advance i x)) := by
  rw [Pool.step_advance hp]
  have hnot : ¬ Task.Doomed P s.shared.log (.holding call copy readAt) := by
    rintro ⟨-,c,hc,hPc⟩
    rw [hfresh c hc] at hPc
    cases hPc
  by_cases hothers : s.Others i (Task.Holding P)
  · obtain ⟨q,hq,hholding⟩ := hothers
    refine Or.inl ((Pool.exists_set_iff_others hp _).mpr (Or.inr ⟨q,hq,?_⟩))
    exact doomed_of_holding hholding (hbase.2 q (List.mem_of_mem_eraseIdx hq)) hcall
  · have hcopy : Whole P s.shared.log copy := by
      obtain h | h | ⟨-,hready⟩ := h
      · obtain hself | ⟨q,hq,hdoomed⟩ := (Pool.exists_iff_others hp _).mp h
        · exact absurd hself hnot
        · exact absurd ⟨q,hq,hdoomed.holding⟩ hothers
      · obtain hself | ⟨q,hq,hready⟩ := (Pool.exists_iff_others hp _).mp h
        · exact hself.2
        · exact absurd ⟨q,hq,hready.holding⟩ hothers
      · exact (hready _ (Pool.mem_of_getElem? hp) hcall).2
    refine Or.inr (Or.inr ⟨hcopy.own hcall,fun q hq hholding => ?_⟩)
    have hexists : ∃ q ∈ s.procs.set i .done, Task.Holding P q := ⟨q,hq,hholding⟩
    exact absurd (((Pool.exists_set_iff_others hp _).mp hexists).resolve_left id) hothers

/-- A write of another kind is written over. -/
theorem onCourse_other (h : OnCourse P s) {i : ℕ} {call : κ} {copy : List κ} {readAt : ℕ}
    (hp : s.procs[i]? = some (.holding call copy readAt)) (hcall : P call = false)
    (hwaits : ∃ q ∈ s.procs, q.Holding P) (x : ι) :
    OnCourse P (s.step program (.advance i x)) := by
  rw [Pool.step_advance hp]
  have hself : ¬ Task.Holding P (.holding call copy readAt) := by
    intro hholding
    rw [Task.Holding, hcall] at hholding
    cases hholding
  obtain h | h | ⟨-,hready⟩ := h
  · obtain hdoomed | ⟨q,hq,hdoomed⟩ := (Pool.exists_iff_others hp _).mp h
    · exact absurd hdoomed.holding hself
    · exact Or.inl ((Pool.exists_set_iff_others hp _).mpr (Or.inr ⟨q,hq,hdoomed.more call⟩))
  · obtain hready | ⟨q,hq,hready⟩ := (Pool.exists_iff_others hp _).mp h
    · exact absurd hready.holding hself
    · exact Or.inr (Or.inl ((Pool.exists_set_iff_others hp _).mpr
        (Or.inr ⟨q,hq,hready.other hcall⟩)))
  · obtain hholding | ⟨q,hq,hholding⟩ := (Pool.exists_iff_others hp _).mp hwaits
    · exact absurd hholding hself
    · have hq' := hready q (List.mem_of_mem_eraseIdx hq) hholding
      exact Or.inr (Or.inl ((Pool.exists_set_iff_others hp _).mpr
        (Or.inr ⟨q,hq,hq'.other hcall⟩)))

theorem onCourse_step (e : PoolEvent Empty κ ι) (horderly : Pool.AtAdvance (Orderly P) s e)
    (h : Base P s ∧ OnCourse P s) :
    Base P (s.step program e) ∧ OnCourse P (s.step program e) := by
  refine ⟨base_step h.1 e,?_⟩
  obtain ⟨hbase,h⟩ := h
  cases e with
  | outside e => exact e.elim
  | start call =>
    obtain ⟨q,hq,hdoomed⟩ | ⟨q,hq,hready⟩ | ⟨hwhole,hready⟩ := h
    · exact Or.inl ⟨q,List.mem_append_left _ hq,hdoomed⟩
    · exact Or.inr (Or.inl ⟨q,List.mem_append_left _ hq,hready⟩)
    · refine Or.inr (Or.inr ⟨hwhole,fun q hq hholding => ?_⟩)
      obtain hq | hq := List.mem_append.mp hq
      · exact hready q hq hholding
      · rw [List.mem_singleton.mp hq] at hholding
        exact hholding.elim
  | advance i x =>
    cases hp : s.procs[i]? with
    | none =>
      rw [Pool.step_advance_none hp]
      exact h
    | some p =>
      cases p with
      | reading call => exact onCourse_read h hp x
      | holding call copy readAt =>
        have hstep := horderly _ hp
        rw [Orderly] at hstep
        by_cases hcall : P call = true
        · rw [if_pos hcall] at hstep
          exact onCourse_write h hbase hp hcall hstep x
        · rw [if_neg hcall] at hstep
          exact onCourse_other h hp (Bool.eq_false_of_not_eq_true hcall) hstep x
      | done =>
        rw [Pool.step_advance hp]
        obtain ⟨hi,hget⟩ := List.getElem?_eq_some_iff.mp hp
        have hsame : s.procs.set i (Task.done (κ := κ)) = s.procs := by
          rw [← hget, List.set_getElem_self]
        change OnCourse P ⟨s.shared,s.procs.set i .done⟩
        rw [hsame]
        exact h

/-- Some effect of the kind is lost for good. -/
def Lost (P : κ → Bool) (s : Pool (Cell κ) (Task κ)) : Prop :=
  s.Holds (fun cell => cell.included.countP P < cell.log.countP P) fun cell q =>
    match q with
    | .holding _ copy _ => copy.countP P < cell.log.countP P
    | _ => True

/-- Each value that is at hand has an effect of another kind. -/
def Mixed (P : κ → Bool) (s : Pool (Cell κ) (Task κ)) : Prop :=
  s.Holds (fun cell => ∃ c ∈ cell.included, P c = false) fun _ q =>
    match q with
    | .holding call copy _ => P call = true → ∃ c ∈ copy, P c = false
    | _ => True

theorem lost_step (h : Lost P s) (e : PoolEvent Empty κ ι) : Lost P (s.step program e) := by
  cases e with
  | outside e => exact e.elim
  | start call => exact h.start trivial
  | advance i x =>
    refine h.advance fun p hp hL => ?_
    cases p with
    | reading call => exact ⟨h.1,h.1,fun q hq => hq⟩
    | holding call copy readAt =>
      refine ⟨?_,trivial,fun q hq => ?_⟩
      · change (copy ++ [call]).countP P < (s.shared.log ++ [call]).countP P
        rw [List.countP_append, List.countP_append]
        exact Nat.add_lt_add_right hL _
      · cases q with
        | holding call' copy' readAt' =>
          change copy'.countP P < (s.shared.log ++ [call]).countP P
          rw [List.countP_append]
          exact Nat.lt_add_right _ hq
        | reading call => trivial
        | done => trivial
    | done => exact ⟨h.1,trivial,fun q hq => hq⟩

/-- A write of the kind, after another of the kind has written since it read. -/
theorem lost_of_stale (hbase : Base P s) {i : ℕ} {call : κ} {copy : List κ} {readAt : ℕ}
    (hp : s.procs[i]? = some (.holding call copy readAt)) (hcall : P call = true) {c : κ}
    (hc : c ∈ s.shared.log.drop readAt) (hPc : P c = true) (x : ι) :
    Lost P (s.step program (.advance i x)) := by
  have hsplit : ∀ n, s.shared.log.countP P =
      (s.shared.log.take n).countP P+(s.shared.log.drop n).countP P := by
    intro n
    rw [← List.countP_append, List.take_append_drop]
  have hpos : 0 < (s.shared.log.drop readAt).countP P := List.countP_pos_iff.mpr ⟨c,hc,hPc⟩
  have hlog : (s.shared.log ++ [call]).countP P = s.shared.log.countP P+1 := by
    rw [List.countP_append, List.countP_singleton, if_pos hcall]
  rw [Pool.step_advance hp]
  refine ⟨?_,fun q hq => ?_⟩
  · have hcopy := (hbase.2 _ (Pool.mem_of_getElem? hp)).2
    change (copy ++ [call]).countP P < (s.shared.log ++ [call]).countP P
    rw [hlog, List.countP_append, List.countP_singleton, if_pos hcall]
    have := hsplit readAt
    omega
  · obtain rfl | hq := Pool.mem_set hq
    · trivial
    · cases q with
      | holding call' copy' readAt' =>
        have hcopy := (hbase.2 _ hq).2
        change copy'.countP P < (s.shared.log ++ [call]).countP P
        have := countP_take_le P readAt' s.shared.log
        omega
      | reading call => trivial
      | done => trivial

theorem mixed_step (h : Mixed P s) (e : PoolEvent Empty κ ι) : Mixed P (s.step program e) := by
  cases e with
  | outside e => exact e.elim
  | start call => exact h.start trivial
  | advance i x =>
    refine h.advance fun p hp hL => ?_
    cases p with
    | reading call => exact ⟨h.1,fun _ => h.1,fun q hq => hq⟩
    | holding call copy readAt =>
      refine ⟨?_,trivial,fun q hq => hq⟩
      by_cases hcall : P call = true
      · obtain ⟨c,hc,hPc⟩ := hL hcall
        exact ⟨c,List.mem_append_left _ hc,hPc⟩
      · exact ⟨call,List.mem_append_right _ (List.mem_singleton_self call),
          Bool.eq_false_of_not_eq_true hcall⟩
    | done => exact ⟨h.1,trivial,fun q hq => hq⟩

/-- A write of another kind, while no copy of the kind is at hand. -/
theorem mixed_of_unawaited {i : ℕ} {call : κ} {copy : List κ} {readAt : ℕ}
    (hp : s.procs[i]? = some (.holding call copy readAt)) (hcall : P call = false)
    (hno : ¬ ∃ q ∈ s.procs, q.Holding P) (x : ι) : Mixed P (s.step program (.advance i x)) := by
  rw [Pool.step_advance hp]
  refine ⟨⟨call,List.mem_append_right _ (List.mem_singleton_self call),hcall⟩,fun q hq => ?_⟩
  obtain rfl | hq := Pool.mem_set hq
  · trivial
  · cases q with
    | holding call' copy' readAt' => exact fun hcall' => absurd ⟨_,hq,hcall'⟩ hno
    | reading call => trivial
    | done => trivial

/-- A step out of order is never made good. -/
theorem spoiled_of_not_orderly (hbase : Base P s) (e : PoolEvent Empty κ ι)
    (h : ¬ Pool.AtAdvance (Orderly P) s e) :
    Lost P (s.step program e) ∨ Mixed P (s.step program e) := by
  cases e with
  | outside e => exact e.elim
  | start call => exact absurd trivial h
  | advance i x =>
    rw [Pool.AtAdvance] at h
    push Not at h
    obtain ⟨p,hp,hstep⟩ := h
    cases p with
    | reading call => exact absurd trivial hstep
    | holding call copy readAt =>
      rw [Orderly] at hstep
      by_cases hcall : P call = true
      · rw [if_pos hcall] at hstep
        push Not at hstep
        obtain ⟨c,hc,hPc⟩ := hstep
        exact Or.inl (lost_of_stale hbase hp hcall hc (Bool.eq_true_of_not_eq_false hPc) x)
      · rw [if_neg hcall] at hstep
        exact Or.inr (mixed_of_unawaited hp (Bool.eq_false_of_not_eq_true hcall) hstep x)
    | done => exact absurd trivial hstep

theorem Lost.not_whole (h : Lost P s) : ¬ Whole P s.shared.log s.shared.included :=
  fun hwhole => h.1.ne hwhole.1

theorem Mixed.not_whole (h : Mixed P s) : ¬ Whole P s.shared.log s.shared.included := by
  rintro ⟨-,hall⟩
  obtain ⟨c,hc,hPc⟩ := h.1
  rw [hall c hc] at hPc
  cases hPc

/-- In the end the value holds the effects of all calls of the kind, and of no others, exactly if
all writes come in order. -/
theorem whole_iff {events : List (PoolEvent Empty κ ι)}
    (hdone : ∀ q ∈ (run (Pool.step program) (⟨{},[]⟩ : Pool (Cell κ) (Task κ)) events).procs,
      q = .done) :
    Whole P (run (Pool.step program) (⟨{},[]⟩ : Pool (Cell κ) (Task κ)) events).shared.log
        (run (Pool.step program) (⟨{},[]⟩ : Pool (Cell κ) (Task κ)) events).shared.included ↔
      Along (Pool.step program) (Pool.AtAdvance (Orderly P)) ⟨{},[]⟩ events := by
  have hstart : Base P (⟨{},[]⟩ : Pool (Cell κ) (Task κ)) := ⟨le_rfl,nofun⟩
  constructor
  · intro hwhole
    rw [along_iff]
    rintro p e q rfl
    by_contra hno
    have hbase : Base P (run (Pool.step program) ⟨{},[]⟩ p) :=
      run_always (I := Base P) (fun _ e h => base_step h e) hstart p
    rw [run_append, run_cons] at hwhole
    obtain hlost | hmixed := spoiled_of_not_orderly hbase e hno
    · exact Lost.not_whole (run_always (I := Lost P) (fun _ e h => lost_step h e) hlost q) hwhole
    · exact Mixed.not_whole (run_always (I := Mixed P) (fun _ e h => mixed_step h e) hmixed q) hwhole
  · intro horderly
    have hcourse : OnCourse P (⟨{},[]⟩ : Pool (Cell κ) (Task κ)) :=
      Or.inr (Or.inr ⟨⟨rfl,nofun⟩,nofun⟩)
    have hend := run_invariant (I := fun s => Base P s ∧ OnCourse P s)
      (fun _ e he h => onCourse_step e he h) horderly ⟨hstart,hcourse⟩
    obtain ⟨q,hq,hdoomed⟩ | ⟨q,hq,hready⟩ | ⟨hwhole,-⟩ := hend.2
    · rw [hdone q hq] at hdoomed
      exact hdoomed.elim
    · rw [hdone q hq] at hready
      exact hready.elim
    · exact hwhole

section Started

/-- The calls that are started. -/
def started (events : List (PoolEvent Empty κ ι)) : List κ :=
  events.filterMap fun
    | .start call => some call
    | _ => none

/-- One for a call of the kind that has not written yet. -/
def Task.weight (P : κ → Bool) : Task κ → ℤ
  | .reading call => if P call then 1 else 0
  | .holding call _ _ => if P call then 1 else 0
  | .done => 0

theorem countP_concat (P : κ → Bool) (l : List κ) (c : κ) :
    ((l ++ [c]).countP P : ℤ) = l.countP P+if P c then 1 else 0 := by
  rw [List.countP_append, List.countP_singleton]
  push_cast
  rfl

/-- The calls that have been started are those that have written and those that will. -/
theorem countP_log_add_total (P : κ → Bool) (events : List (PoolEvent Empty κ ι)) :
    ((run (Pool.step program) (⟨{},[]⟩ : Pool (Cell κ) (Task κ)) events).shared.log.countP P : ℤ)+
        (run (Pool.step program) (⟨{},[]⟩ : Pool (Cell κ) (Task κ)) events).total
          (Task.weight P) = (started events).countP P := by
  induction events using List.reverseRecOn with
  | nil => rfl
  | append_singleton events e ih =>
    rw [run_concat, started, List.filterMap_append, ← started]
    cases e with
    | outside e => exact e.elim
    | start call =>
      rw [Pool.total_start, ← add_assoc]
      change _+_+Task.weight P (.reading call) = (((started events ++ [call]).countP P : ℕ) : ℤ)
      rw [countP_concat, ← ih]
      rfl
    | advance i x =>
      rw [List.filterMap_cons, List.filterMap_nil, List.append_nil, ← ih]
      cases hp : (run (Pool.step program) ⟨{},[]⟩ events).procs[i]? with
      | none => rw [Pool.step_advance_none hp]
      | some p =>
        rw [Pool.total_advance _ hp, Pool.step_advance hp]
        cases p with
        | reading call =>
          change _+(_+(Task.weight P (.holding call _ _)-Task.weight P (.reading call))) = _
          rw [Task.weight, Task.weight, sub_self, add_zero]
          rfl
        | holding call copy readAt =>
          change (((_ ++ [call]).countP P : ℕ) : ℤ)+(_+(Task.weight P .done-_)) = _
          rw [countP_concat, Task.weight, Task.weight]
          ring
        | done =>
          change _+(_+(Task.weight P .done-Task.weight P .done)) = _
          rw [sub_self, add_zero]
          rfl

/-- Once all calls are done, each of them has written. -/
theorem countP_log_of_done {events : List (PoolEvent Empty κ ι)}
    (hdone : ∀ q ∈ (run (Pool.step program) (⟨{},[]⟩ : Pool (Cell κ) (Task κ)) events).procs,
      q = .done) (P : κ → Bool) :
    (run (Pool.step program) (⟨{},[]⟩ : Pool (Cell κ) (Task κ)) events).shared.log.countP P =
      (started events).countP P := by
  have hsum := countP_log_add_total P events
  have hzero : (run (Pool.step program) (⟨{},[]⟩ : Pool (Cell κ) (Task κ)) events).total
      (Task.weight P) = 0 := by
    refine List.sum_eq_zero fun w hw => ?_
    obtain ⟨q,hq,rfl⟩ := List.mem_map.mp hw
    rw [hdone q hq]
    rfl
  rw [hzero, add_zero] at hsum
  exact_mod_cast hsum

end Started

end Arsonist.Library.LostUpdates
