import Arsonist.DistributedQueue.ReplicatedQueue
import Arsonist.Library.Interleaving

/-! Claims on replicated jobs that clusters make at the same time. `try_claim` reads the payload,
reads the lease and writes the row, each under the lock on its own; other claims on the job come
in between. -/
namespace Arsonist.DistributedQueue
open Arsonist.Library Arsonist.Shared Arsonist.Mesh

/-- The table and the clock. -/
structure ClaimState where
  queue : ReplicatedQueue
  now : ℚ := 0

/-- Where a call of `try_claim` stands: the next thing it does, and what it has read so far. -/
inductive Claim
  | getting (id : JobId) (cluster : ClusterId)
  | leasing (cluster : ClusterId) (st : ReplicatedJobState)
  | checking (cluster : ClusterId) (st : ReplicatedJobState) (leaseUntil : ℚ)
  | stamping (st : ReplicatedJobState)
  | writing (st : ReplicatedJobState)
  | done (granted : Option ReplicatedJobState)
  deriving DecidableEq

namespace Claim
variable (leaseSec : ℚ)

/-- A state with the time at which it is written. -/
def stamped (now : ℚ) (st : ReplicatedJobState) : ReplicatedJobState := { st with updatedAt := now }

def next (s : ClaimState) : Claim → ClaimState × Claim
  | .getting id cluster =>
    match s.queue.job? id with
    | none => (s,.done none)
    | some st => (s,.leasing cluster st)
  | .leasing cluster st =>
    (s,.checking cluster st (((s.queue.get? st.jobId).map RepJob.leaseUntil).getD 0))
  | .checking cluster st leaseUntil =>
    if ReplicatedQueue.mayClaim st leaseUntil s.now cluster then
      (s,.stamping (ReplicatedQueue.claimed st cluster))
    else (s,.done none)
  | .stamping st => (s,.writing (stamped s.now st))
  | .writing st =>
    ({ s with queue := s.queue.put ⟨st,st.updatedAt+leaseSec⟩ },.done (some st))
  | .done granted => (s,.done granted)

/-- Calls start at any time, and the clock does not go backwards. -/
def program : Program ClaimState Claim ℚ (JobId × ClusterId) Unit where
  outside s now := { s with now := max s.now now }
  enter r := .getting r.1 r.2
  next s p _ := next leaseSec s p

/-- A call that has the table to itself does what `try_claim` does. -/
theorem alone_tryClaim (s : ClaimState) (id : JobId) (cluster : ClusterId) :
    Relation.ReflTransGen ((program leaseSec).Alone ()) (s,.getting id cluster)
      ({ s with queue := (s.queue.tryClaim leaseSec s.now s.now id cluster).1 },
        .done (s.queue.tryClaim leaseSec s.now s.now id cluster).2) := by
  have hstep : ∀ x : ClaimState × Claim,
      (program leaseSec).Alone () x (next leaseSec x.1 x.2) := fun x => rfl
  rw [ReplicatedQueue.tryClaim]
  refine Relation.ReflTransGen.head (hstep _) ?_
  rw [next, ReplicatedQueue.job?]
  cases hrow : s.queue.get? id with
  | none => exact Relation.ReflTransGen.refl
  | some row =>
    have hid : row.state.jobId = id := Table.key_of_get? hrow
    refine Relation.ReflTransGen.head (hstep _) ?_
    simp only [next, Option.map_some, hid, hrow, Option.getD_some]
    refine Relation.ReflTransGen.head (hstep _) ?_
    simp only [next]
    split_ifs with hmay
    · exact Relation.ReflTransGen.head (hstep _) (Relation.ReflTransGen.single (hstep _))
    · exact Relation.ReflTransGen.refl

end Claim

abbrev Claims := Pool ClaimState Claim

namespace Claims
variable (leaseSec : ℚ)

/-- Two grants whose leases do not overlap: the one ends before the other begins. -/
def Apart (st st' : ReplicatedJobState) : Prop :=
  st.updatedAt+leaseSec ≤ st'.updatedAt ∨ st'.updatedAt+leaseSec ≤ st.updatedAt

instance (st st' : ReplicatedJobState) : Decidable (Apart leaseSec st st') :=
  inferInstanceAs (Decidable (_ ∨ _))

/-- At most one owner at a time: calls by different clusters were granted a job for leases that do
not overlap. -/
def Exclusive (s : Claims) : Prop :=
  ∀ st st', Claim.done (some st) ∈ s.procs → Claim.done (some st') ∈ s.procs →
    st.jobId = st'.jobId → st.ownerClusterId ≠ st'.ownerClusterId → Apart leaseSec st st'

/-- The claim could be made of the row that is now stored, at the time that it is stamped with;
the row was not written later than that, and the cluster has a name. -/
def FreeFor (q : ReplicatedQueue) (st : ReplicatedJobState) : Prop :=
  st.ownerClusterId ≠ "" ∧ ∀ row ∈ q.get? st.jobId,
    ReplicatedQueue.mayClaim row.state row.leaseUntil st.updatedAt st.ownerClusterId ∧
      row.state.updatedAt ≤ st.updatedAt

instance (q : ReplicatedQueue) (st : ReplicatedJobState) : Decidable (FreeFor q st) :=
  inferInstanceAs (Decidable (_ ∧ ∀ row ∈ q.get? st.jobId, _))

/-- A call that writes still finds the row free. -/
def StillFree (s : Claims) (_ : ℕ) : Claim → Unit → Prop
  | .writing st, _ => FreeFor s.shared.queue st
  | _, _ => True

instance (s : Claims) (i : ℕ) (u : Unit) : (p : Claim) → Decidable (StillFree s i p u)
  | .writing st => inferInstanceAs (Decidable (FreeFor s.shared.queue st))
  | .getting _ _ | .leasing _ _ | .checking _ _ _ | .stamping _ | .done _ => .isTrue trivial

/-- What the row of a job tells about a lease: its cluster is still the owner, for at least as
long, or the row was written when the lease was over. -/
def Told (q : ReplicatedQueue) (st : ReplicatedJobState) : Prop :=
  st.ownerClusterId ≠ "" ∧ ∃ row, q.get? st.jobId = some row ∧
    row.leaseUntil = row.state.updatedAt+leaseSec ∧
    (row.state.ownerClusterId = st.ownerClusterId ∧ st.updatedAt ≤ row.state.updatedAt ∨
      st.updatedAt+leaseSec ≤ row.state.updatedAt)

variable {leaseSec} {s : Claims}

/-- A lease that the row tells of is over when a cluster other than its own may claim. -/
theorem Told.apart {q : ReplicatedQueue} {st st' : ReplicatedJobState} (h : Told leaseSec q st)
    (hjob : st.jobId = st'.jobId) (hother : st.ownerClusterId ≠ st'.ownerClusterId)
    (hfree : FreeFor q st') : st.updatedAt+leaseSec ≤ st'.updatedAt := by
  obtain ⟨hnamed,row,hrow,hlease,hrow'⟩ := h
  obtain ⟨hmay,hlater⟩ := hfree.2 row (hjob ▸ hrow)
  obtain ⟨howner,hsince⟩ | hover := hrow'
  · rw [ReplicatedQueue.mayClaim, howner] at hmay
    have hended : ¬ st'.updatedAt < row.leaseUntil := fun hlt => hmay ⟨hnamed,hother,hlt⟩
    rw [hlease] at hended
    linarith
  · linarith

/-- The row after a write tells of the lease that is written, and of all earlier ones. -/
theorem told_put {q : ReplicatedQueue} {st' : ReplicatedJobState}
    (hfree : FreeFor q st') :
    Told leaseSec (q.put ⟨st',st'.updatedAt+leaseSec⟩) st' ∧
      ∀ st, Told leaseSec q st → Told leaseSec (q.put ⟨st',st'.updatedAt+leaseSec⟩) st := by
  have hget : ∀ id, (q.put ⟨st',st'.updatedAt+leaseSec⟩).get? id =
      if id = st'.jobId then some ⟨st',st'.updatedAt+leaseSec⟩ else q.get? id :=
    fun id => Table.get?_put q _ id
  constructor
  · exact ⟨hfree.1,_,(hget _).trans (if_pos rfl),rfl,Or.inl ⟨rfl,le_rfl⟩⟩
  · intro st hst
    by_cases hjob : st.jobId = st'.jobId
    · refine ⟨hst.1,_,(hget _).trans (if_pos hjob),rfl,?_⟩
      by_cases hown : st.ownerClusterId = st'.ownerClusterId
      · obtain ⟨-,row,hrow,-,hrow'⟩ := hst
        have hlater := (hfree.2 row (hjob ▸ hrow)).2
        obtain ⟨-,hsince⟩ | hover := hrow'
        · exact Or.inl ⟨hown.symm,hsince.trans hlater⟩
        · exact Or.inr (hover.trans hlater)
      · exact Or.inr (hst.apart hjob hown hfree)
    · obtain ⟨hname,row,hrow,htells⟩ := hst
      exact ⟨hname,row,by rw [hget, if_neg hjob, hrow],htells⟩

/-- Every grant is told of by the row of its job. -/
def Kept (leaseSec : ℚ) (q : ClaimState) (p : Claim) : Prop :=
  ∀ st, p = .done (some st) → Told leaseSec q.queue st

/-- Only a write changes the table or ends in a grant. -/
theorem next_of_not_writing (q : ClaimState) {p : Claim} (hw : ∀ st, p ≠ .writing st) :
    (Claim.next leaseSec q p).1 = q ∧
      ∀ st, (Claim.next leaseSec q p).2 = .done (some st) → p = .done (some st) := by
  cases p with
  | getting id cluster =>
    rw [Claim.next]
    cases q.queue.job? id <;> exact ⟨rfl,by rintro st ⟨⟩⟩
  | leasing cluster st => exact ⟨rfl,by rintro st ⟨⟩⟩
  | checking cluster st leaseUntil =>
    rw [Claim.next]
    split_ifs <;> exact ⟨rfl,by rintro st ⟨⟩⟩
  | stamping st => exact ⟨rfl,by rintro st ⟨⟩⟩
  | writing st => exact absurd rfl (hw st)
  | done granted => exact ⟨rfl,fun st h => h⟩

/-- The leases of the grants do not overlap, and the rows tell of all of them. -/
def Sound (leaseSec : ℚ) (s : Claims) : Prop :=
  Exclusive leaseSec s ∧ ∀ p ∈ s.procs, Kept leaseSec s.shared p

theorem Sound.advance (h : s.Sound leaseSec) {i : ℕ} {p : Claim} (hp : s.procs[i]? = some p)
    (hfree : StillFree s i p ()) :
    Sound leaseSec (s.step (Claim.program leaseSec) (.advance i ())) := by
  rw [Pool.step_advance hp]
  change Sound leaseSec ⟨(Claim.next leaseSec s.shared p).1,
    s.procs.set i (Claim.next leaseSec s.shared p).2⟩
  obtain ⟨hapart,hkept⟩ := h
  by_cases hw : ∃ st', p = .writing st'
  · obtain ⟨st',rfl⟩ := hw
    have hrow : FreeFor s.shared.queue st' := hfree
    obtain ⟨hown,hold⟩ := @told_put leaseSec _ _ hrow
    have hgrant : ∀ st, Claim.done (some st) ∈ s.procs.set i (.done (some st')) →
        st = st' ∨ Claim.done (some st) ∈ s.procs := by
      intro st hst
      obtain heq | hmem := Pool.mem_set hst
      · exact Or.inl (Option.some.inj (Claim.done.inj heq))
      · exact Or.inr hmem
    refine ⟨fun st st'' hst hst'' hjob hother => ?_,fun q hq st hst => ?_⟩
    · obtain rfl | hmem := hgrant st hst
      · obtain rfl | hmem'' := hgrant st'' hst''
        · exact absurd rfl hother
        · exact Or.inr ((hkept _ hmem'' st'' rfl).apart hjob.symm hother.symm hrow)
      · obtain rfl | hmem'' := hgrant st'' hst''
        · exact Or.inl ((hkept _ hmem st rfl).apart hjob hother hrow)
        · exact hapart st st'' hmem hmem'' hjob hother
    · subst hst
      obtain rfl | hmem := hgrant st hq
      · exact hown
      · exact hold st (hkept _ hmem st rfl)
  · obtain ⟨hsame,hdone⟩ := @next_of_not_writing leaseSec s.shared _
      (fun st heq => hw ⟨st,heq⟩)
    rw [hsame]
    have hgrant : ∀ st, Claim.done (some st) ∈ s.procs.set i (Claim.next leaseSec s.shared p).2 →
        Claim.done (some st) ∈ s.procs := by
      intro st hst
      obtain heq | hmem := Pool.mem_set hst
      · rw [← hdone st heq.symm]
        exact Pool.mem_of_getElem? hp
      · exact hmem
    refine ⟨fun st st'' hst hst'' => hapart st st'' (hgrant st hst) (hgrant st'' hst''),?_⟩
    intro q hq st hst
    subst hst
    exact hkept _ (hgrant st hq) st rfl

theorem sound_step {e : PoolEvent ℚ (JobId × ClusterId) Unit} (h : s.Sound leaseSec)
    (hfree : Pool.AtAdvance StillFree s e) :
    Sound leaseSec (s.step (Claim.program leaseSec) e) := by
  cases e with
  | outside now => exact ⟨h.1,h.2⟩
  | start request =>
    have hgrant : ∀ st, Claim.done (some st) ∈
        s.procs ++ [(Claim.program leaseSec).enter request] → Claim.done (some st) ∈ s.procs := by
      intro st hst
      obtain hmem | hmem := List.mem_append.mp hst
      · exact hmem
      · cases List.mem_singleton.mp hmem
    refine ⟨fun st st' hst hst' => h.1 st st' (hgrant st hst) (hgrant st' hst'),?_⟩
    intro q hq st hst
    subst hst
    exact h.2 _ (hgrant st hq) st rfl
  | advance i input =>
    cases hp : s.procs[i]? with
    | none =>
      rw [Pool.step_advance_none hp]
      exact h
    | some p => exact h.advance hp (hfree p hp)

/-- If every call still finds the row free when it writes, no two clusters own a job at the same
time, in any interleaving of any number of calls. -/
theorem exclusive_of_stillFree (leaseSec : ℚ) (queue : ReplicatedQueue) (now : ℚ)
    (events : List (PoolEvent ℚ (JobId × ClusterId) Unit))
    (h : Along (Pool.step (Claim.program leaseSec)) (Pool.AtAdvance StillFree)
      ⟨⟨queue,now⟩,[]⟩ events) :
    Exclusive leaseSec (run (Pool.step (Claim.program leaseSec)) ⟨⟨queue,now⟩,[]⟩ events) := by
  have hinit : Sound leaseSec ⟨⟨queue,now⟩,[]⟩ :=
    ⟨fun st st' hst => by simp at hst,fun p hp => by simp at hp⟩
  exact (run_invariant (fun s e hfree hs => sound_step hs hfree) h hinit).1

/-- A job that waits, without an owner. -/
def waiting : ReplicatedQueue :=
  Table.empty.put ⟨{ jobId := "j", claimToken := "t", updatedAt := 0 },45⟩

/-- A claim by `eu`, and one by `us` when its lease is over. -/
def takeover : List (PoolEvent ℚ (JobId × ClusterId) Unit) :=
  List.flatten [[.start ("j","eu")],List.replicate 5 (.advance 0 ()),
    [.outside 60,.start ("j","us")],List.replicate 5 (.advance 1 ())]

/-- Both read the job before one of them writes. -/
def race : List (PoolEvent ℚ (JobId × ClusterId) Unit) :=
  List.flatten [[.start ("j","eu"),.start ("j","us"),.advance 0 (),.advance 1 ()],
    List.replicate 4 (.advance 0 ()),List.replicate 4 (.advance 1 ())]

theorem exclusive_takeover :
    Exclusive 45 (run (Pool.step (Claim.program 45)) ⟨⟨waiting,0⟩,[]⟩ takeover) :=
  exclusive_of_stillFree 45 waiting 0 takeover (by decide +kernel)

theorem not_exclusive : ¬ ∀ leaseSec queue now events,
    Exclusive leaseSec (run (Pool.step (Claim.program leaseSec)) ⟨⟨queue,now⟩,[]⟩ events) := by
  intro h
  have hrace := h 45 waiting 0 race
    { jobId := "j", state := "assigned", ownerClusterId := "eu", claimToken := "t" }
    { jobId := "j", state := "assigned", ownerClusterId := "us", claimToken := "t" }
    (by decide) (by decide) rfl (by decide)
  norm_num [Apart] at hrace

end Claims
end Arsonist.DistributedQueue
