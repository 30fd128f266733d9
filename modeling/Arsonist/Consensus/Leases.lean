import Arsonist.Library.Interleaving
import Arsonist.Library.Keyed

/-! Leases that processes keep in one SQLite file: locks in the table `dist_locks` and elected
leaders in `leader_lease`. A process has a lock of its own around each call, but nothing orders the
statements of different processes. -/
namespace Arsonist.Consensus
open Arsonist.Library

/-- A row of `dist_locks`, or of `leader_lease` with the scope for a name. -/
structure Lease where
  name : String
  holder : String
  expiresAt : ℚ
  deriving DecidableEq

instance : Keyed Lease String := ⟨Lease.name⟩

abbrev Leases := Table Lease

namespace Leases
variable (leases : Leases)

/-- No other holder has a lease at time `t`, as far as the row tells. -/
def FreeAt (row : Option Lease) (t : ℚ) (holder : String) : Prop :=
  ∀ r ∈ row, t < r.expiresAt → r.holder = holder

instance (row : Option Lease) (t : ℚ) (holder : String) : Decidable (FreeAt row t holder) :=
  inferInstanceAs (Decidable (∀ r ∈ row, _))

def acquire (t : ℚ) (name holder : String) (ttlSec : ℚ) : Leases × Bool :=
  if FreeAt (leases.get? name) t holder then (leases.put ⟨name,holder,t+ttlSec⟩,true)
  else (leases,false)

/-- The row is the holder's own. -/
def Own (row : Option Lease) (holder : String) : Prop := row.map Lease.holder = some holder

instance (row : Option Lease) (holder : String) : Decidable (Own row holder) :=
  inferInstanceAs (Decidable (_ = _))

def release (name holder : String) : Leases :=
  if Own (leases.get? name) holder then leases.erase name else leases

end Leases

namespace DistributedLock

def acquire := Leases.acquire

def release := Leases.release

end DistributedLock

namespace LeaderElection

def tryAcquire := Leases.acquire

/-- Whether the lease was acquired is not told. -/
def renew (leases : Leases) (t : ℚ) (scope holder : String) (ttlSec : ℚ) : Leases :=
  (tryAcquire leases t scope holder ttlSec).1

end LeaderElection

/-- The file, the clock and the processes with a thread inside their lock; and, to speak of what
was promised, the leases of the successful calls that their holders have not released. -/
structure LeaseState where
  leases : Leases
  now : ℚ := 0
  locked : List ℕ := []
  held : List Lease := []

namespace LeaseState

def unlock (s : LeaseState) (pid : ℕ) : LeaseState := { s with locked := s.locked.erase pid }

/-- The holder has released what it held under the name. -/
def giveUp (s : LeaseState) (name holder : String) : LeaseState :=
  { s with held := s.held.filter fun l => ¬ (l.name = name ∧ l.holder = holder) }

end LeaseState

/-- Where a call in process `pid` stands: the next thing that it does. -/
inductive LeaseCall
  | acquiring (pid : ℕ) (name holder : String) (ttlSec : ℚ)
  | locking (pid : ℕ) (t : ℚ) (name holder : String) (ttlSec : ℚ)
  | selecting (pid : ℕ) (t : ℚ) (name holder : String) (ttlSec : ℚ)
  | inserting (pid : ℕ) (lease : Lease)
  | releasing (pid : ℕ) (name holder : String)
  | reading (pid : ℕ) (name holder : String)
  | deleting (pid : ℕ) (name holder : String)
  | done (result : Option Bool)
  deriving DecidableEq

inductive LeaseRequest
  | acquire (pid : ℕ) (name holder : String) (ttlSec : ℚ)
  | release (pid : ℕ) (name holder : String)

namespace LeaseCall

/-- A statement is executed (and committed) or raises; the lock is given back in either case. -/
def next (s : LeaseState) : LeaseCall → Bool → LeaseState × LeaseCall
  | .acquiring pid name holder ttlSec, _ => (s,.locking pid s.now name holder ttlSec)
  | .locking pid t name holder ttlSec, _ =>
    if pid ∈ s.locked then (s,.locking pid t name holder ttlSec)
    else ({ s with locked := pid :: s.locked },.selecting pid t name holder ttlSec)
  | .selecting pid t name holder ttlSec, true =>
    if Leases.FreeAt (s.leases.get? name) t holder then
      (s,.inserting pid ⟨name,holder,t+ttlSec⟩)
    else (s.unlock pid,.done (some false))
  | .inserting pid lease, true =>
    ({ s.unlock pid with leases := s.leases.put lease, held := s.held ++ [lease] },
      .done (some true))
  | .releasing pid name holder, _ =>
    if pid ∈ s.locked then (s,.releasing pid name holder)
    else ({ s with locked := pid :: s.locked },.reading pid name holder)
  | .reading pid name holder, true =>
    if Leases.Own (s.leases.get? name) holder then (s,.deleting pid name holder)
    else ((s.unlock pid).giveUp name holder,.done none)
  | .deleting pid name holder, true =>
    ({ (s.unlock pid).giveUp name holder with leases := s.leases.erase name },.done none)
  | .selecting pid _ _ _ _, false | .inserting pid _, false | .reading pid _ _, false
  | .deleting pid _ _, false => (s.unlock pid,.done none)
  | .done result, _ => (s,.done result)

/-- Calls start at any time in any process, and the clock does not go backwards. -/
def program : Program LeaseState LeaseCall ℚ LeaseRequest Bool where
  outside s now := { s with now := max s.now now }
  enter
    | .acquire pid name holder ttlSec => .acquiring pid name holder ttlSec
    | .release pid name holder => .releasing pid name holder
  next := next

variable (s : LeaseState) {pid : ℕ} (hpid : pid ∉ s.locked) (name holder : String)
include hpid

/-- A call that has the file to itself does what `acquire` does. -/
theorem alone_acquire (ttlSec : ℚ) : ∃ s' : LeaseState,
    s'.leases = (DistributedLock.acquire s.leases s.now name holder ttlSec).1 ∧
      Relation.ReflTransGen (program.Alone true) (s,.acquiring pid name holder ttlSec)
        (s',.done (some (DistributedLock.acquire s.leases s.now name holder ttlSec).2)) := by
  have hlock : next s (.locking pid s.now name holder ttlSec) true =
      ({ s with locked := pid :: s.locked },.selecting pid s.now name holder ttlSec) := by
    rw [next, if_neg hpid]
  have hpath : Relation.ReflTransGen (program.Alone true) (s,.acquiring pid name holder ttlSec)
      ({ s with locked := pid :: s.locked },.selecting pid s.now name holder ttlSec) :=
    Relation.ReflTransGen.head rfl (Relation.ReflTransGen.single hlock)
  rw [DistributedLock.acquire, Leases.acquire]
  by_cases hfree : Leases.FreeAt (s.leases.get? name) s.now holder
  · have hselect : next { s with locked := pid :: s.locked }
        (.selecting pid s.now name holder ttlSec) true =
        ({ s with locked := pid :: s.locked },.inserting pid ⟨name,holder,s.now+ttlSec⟩) := by
      rw [next, if_pos hfree]
    rw [if_pos hfree]
    exact ⟨_,rfl,(hpath.tail hselect).tail rfl⟩
  · have hselect : next { s with locked := pid :: s.locked }
        (.selecting pid s.now name holder ttlSec) true =
        (LeaseState.unlock { s with locked := pid :: s.locked } pid,.done (some false)) := by
      rw [next, if_neg hfree]
    rw [if_neg hfree]
    exact ⟨_,by rfl,hpath.tail hselect⟩

theorem alone_renew (ttlSec : ℚ) : ∃ s' : LeaseState,
    s'.leases = LeaderElection.renew s.leases s.now name holder ttlSec ∧ ∃ acquired,
      Relation.ReflTransGen (program.Alone true) (s,.acquiring pid name holder ttlSec)
        (s',.done (some acquired)) := by
  obtain ⟨s',hleases,hpath⟩ := alone_acquire s hpid name holder ttlSec
  exact ⟨s',hleases,_,hpath⟩

theorem alone_release : ∃ s' : LeaseState,
    s'.leases = DistributedLock.release s.leases name holder ∧
      Relation.ReflTransGen (program.Alone true) (s,.releasing pid name holder)
        (s',.done none) := by
  have hlock : next s (.releasing pid name holder) true =
      ({ s with locked := pid :: s.locked },.reading pid name holder) := by
    rw [next, if_neg hpid]
  have hpath : Relation.ReflTransGen (program.Alone true) (s,.releasing pid name holder)
      ({ s with locked := pid :: s.locked },.reading pid name holder) :=
    Relation.ReflTransGen.single hlock
  rw [DistributedLock.release, Leases.release]
  by_cases hown : Leases.Own (s.leases.get? name) holder
  · have hread : next { s with locked := pid :: s.locked } (.reading pid name holder) true =
        ({ s with locked := pid :: s.locked },.deleting pid name holder) := by
      rw [next, if_pos hown]
    rw [if_pos hown]
    exact ⟨_,rfl,(hpath.tail hread).tail rfl⟩
  · have hread : next { s with locked := pid :: s.locked } (.reading pid name holder) true =
        ((LeaseState.unlock { s with locked := pid :: s.locked } pid).giveUp name holder,
          .done none) := by
      rw [next, if_neg hown]
    rw [if_neg hown]
    exact ⟨_,by rfl,hpath.tail hread⟩

end LeaseCall

abbrev LeaseCalls := Pool LeaseState LeaseCall

namespace LeaseState

/-- At no time do two holders have leases of one name that have not ended. -/
def Exclusive (s : LeaseState) : Prop :=
  ∀ l ∈ s.held, ∀ l' ∈ s.held, l.name = l'.name → s.now < l.expiresAt → s.now < l'.expiresAt →
    l.holder = l'.holder

/-- The row of a lease is the holder's, for at least as long. -/
def Rowed (leases : Leases) (l : Lease) : Prop :=
  ∃ r ∈ leases.get? l.name, r.holder = l.holder ∧ l.expiresAt ≤ r.expiresAt

/-- A lease that has not ended still has its row: no release by another holder, nor any other
call, has removed it. -/
def Kept (s : LeaseState) : Prop := ∀ l ∈ s.held, s.now < l.expiresAt → Rowed s.leases l

theorem Kept.exclusive {s : LeaseState} (h : s.Kept) : s.Exclusive := by
  intro l hl l' hl' hname hlive hlive'
  obtain ⟨r,hr,hholder,-⟩ := h l hl hlive
  obtain ⟨r',hr',hholder',-⟩ := h l' hl' hlive'
  rw [hname] at hr
  rw [← hholder, ← hholder', Option.some.inj (hr.symm.trans hr')]

/-- A file with the leases in it. -/
def start (leases : Leases) (now : ℚ) : LeaseState :=
  { leases := leases, now := now, held := leases.entries }

theorem kept_start (leases : Leases) (now : ℚ) : (start leases now).Kept :=
  fun l hl _ => ⟨l,Table.get?_of_mem hl,rfl,le_rfl⟩

end LeaseState

namespace LeaseCall

/-- A call that writes still finds the row free, as it was when the call read it; and a lease
that the holder has is not made shorter. -/
def StillFree (s : LeaseState) : LeaseCall → Bool → Prop
  | .inserting _ lease, true =>
    Leases.FreeAt (s.leases.get? lease.name) s.now lease.holder ∧
      ∀ r ∈ s.leases.get? lease.name, s.now < r.expiresAt → r.expiresAt ≤ lease.expiresAt
  | .deleting _ name holder, true => Leases.FreeAt (s.leases.get? name) s.now holder
  | _, _ => True

instance (s : LeaseState) : (p : LeaseCall) → (ok : Bool) → Decidable (p.StillFree s ok)
  | .inserting _ _, true => inferInstanceAs (Decidable (_ ∧ ∀ r ∈ s.leases.get? _, _))
  | .deleting _ name holder, true =>
    inferInstanceAs (Decidable (Leases.FreeAt (s.leases.get? name) s.now holder))
  | .inserting _ _, false | .deleting _ _ _, false => .isTrue trivial
  | .acquiring _ _ _ _, _ | .locking _ _ _ _ _, _ | .selecting _ _ _ _ _, _ => .isTrue trivial
  | .releasing _ _ _, _ | .reading _ _ _, _ | .done _, _ => .isTrue trivial

end LeaseCall

namespace LeaseState
variable {s : LeaseState}

/-- The clock goes on and holders release: there are fewer leases to keep. -/
theorem Kept.mono {s' : LeaseState} (h : s.Kept) (hleases : s'.leases = s.leases)
    (hnow : s.now ≤ s'.now) (hheld : ∀ l ∈ s'.held, l ∈ s.held) : s'.Kept := by
  intro l hl hlive
  rw [hleases]
  exact h l (hheld l hl) (lt_of_le_of_lt hnow hlive)

theorem mem_giveUp {name holder : String} {l : Lease} :
    l ∈ (s.giveUp name holder).held ↔ l ∈ s.held ∧ ¬ (l.name = name ∧ l.holder = holder) := by
  rw [giveUp, List.mem_filter, decide_eq_true_iff]

theorem Kept.insert (h : s.Kept) {pid : ℕ} {lease : Lease}
    (hfree : (LeaseCall.inserting pid lease).StillFree s true) :
    ({ s.unlock pid with leases := s.leases.put lease, held := s.held ++ [lease] } :
      LeaseState).Kept := by
  obtain ⟨hfree,hlonger⟩ := hfree
  intro l hl hlive
  change s.now < l.expiresAt at hlive
  change ∃ r ∈ (s.leases.put lease).get? l.name, _
  rw [Table.get?_put]
  change ∃ r ∈ (if l.name = lease.name then some lease else s.leases.get? l.name), _
  obtain hold | hnew := List.mem_append.mp hl
  · obtain ⟨r,hr,hholder,hends⟩ := h l hold hlive
    by_cases hname : l.name = lease.name
    · rw [hname] at hr
      have hlive' : s.now < r.expiresAt := lt_of_lt_of_le hlive hends
      rw [if_pos hname]
      exact ⟨lease,rfl,(hfree r hr hlive').symm.trans hholder,
        hends.trans (hlonger r hr hlive')⟩
    · exact ⟨r,(if_neg hname).trans hr,hholder,hends⟩
  · rw [List.mem_singleton.mp hnew]
    exact ⟨lease,if_pos rfl,rfl,le_rfl⟩

theorem Kept.delete (h : s.Kept) {pid : ℕ} {name holder : String}
    (hfree : (LeaseCall.deleting pid name holder).StillFree s true) :
    ({ (s.unlock pid).giveUp name holder with leases := s.leases.erase name } :
      LeaseState).Kept := by
  intro l hl hlive
  obtain ⟨hl,hother⟩ := mem_giveUp.mp hl
  obtain ⟨r,hr,hholder,hends⟩ := h l hl hlive
  have hname : l.name ≠ name := by
    intro hname
    rw [hname] at hr
    exact hother ⟨hname,hholder.symm.trans (hfree r hr (lt_of_lt_of_le hlive hends))⟩
  refine ⟨r,?_,hholder,hends⟩
  change (s.leases.erase name).get? l.name = some r
  rw [Table.get?_erase, if_neg hname]
  exact hr

/-- What a step of a call keeps: only the two statements that write touch the rows. -/
theorem Kept.next (h : s.Kept) {p : LeaseCall} {ok : Bool} (hfree : p.StillFree s ok) :
    (p.next s ok).1.Kept := by
  have hunlock : ∀ pid, (s.unlock pid).Kept := fun pid => h.mono rfl le_rfl fun l hl => hl
  have hlock : ∀ pid, ({ s with locked := pid :: s.locked } : LeaseState).Kept :=
    fun pid => h.mono rfl le_rfl fun l hl => hl
  cases p with
  | acquiring pid name holder ttlSec => exact h
  | locking pid t name holder ttlSec =>
    rw [LeaseCall.next]
    split_ifs
    · exact h
    · exact hlock pid
  | selecting pid t name holder ttlSec =>
    cases ok with
    | false => exact hunlock pid
    | true =>
      rw [LeaseCall.next]
      split_ifs
      · exact h
      · exact hunlock pid
  | inserting pid lease =>
    cases ok with
    | false => exact hunlock pid
    | true => exact h.insert hfree
  | releasing pid name holder =>
    rw [LeaseCall.next]
    split_ifs
    · exact h
    · exact hlock pid
  | reading pid name holder =>
    cases ok with
    | false => exact hunlock pid
    | true =>
      rw [LeaseCall.next]
      split_ifs
      · exact h
      · exact (hunlock pid).mono rfl le_rfl fun l hl => (mem_giveUp.mp hl).1
  | deleting pid name holder =>
    cases ok with
    | false => exact hunlock pid
    | true => exact h.delete hfree
  | done result => exact h

end LeaseState

namespace LeaseCalls
variable {s : LeaseCalls}

theorem kept_step {e : PoolEvent ℚ LeaseRequest Bool} (h : s.shared.Kept)
    (hfree : Pool.AtAdvance (fun s _ p ok => LeaseCall.StillFree s.shared p ok) s e) :
    (s.step LeaseCall.program e).shared.Kept := by
  cases e with
  | outside now => exact h.mono rfl (le_max_left _ _) fun l hl => hl
  | start request => exact h
  | advance i ok =>
    cases hp : s.procs[i]? with
    | none =>
      rw [Pool.step_advance_none hp]
      exact h
    | some p =>
      rw [Pool.step_advance hp]
      exact h.next (hfree p hp)

/-- If every call that writes still finds the row free, then at no time do two holders have a
lease of one name, and no call removes the lease of another holder, in any interleaving of any
number of calls in any number of processes. -/
theorem exclusive_kept_of_stillFree (leases : Leases) (now : ℚ)
    (events : List (PoolEvent ℚ LeaseRequest Bool))
    (h : Along (Pool.step LeaseCall.program)
      (Pool.AtAdvance fun s _ p ok => LeaseCall.StillFree s.shared p ok)
      ⟨LeaseState.start leases now,[]⟩ events) :
    (run (Pool.step LeaseCall.program) ⟨LeaseState.start leases now,[]⟩ events).shared.Exclusive ∧
      (run (Pool.step LeaseCall.program) ⟨LeaseState.start leases now,[]⟩ events).shared.Kept := by
  have hkept := run_invariant (I := fun s : LeaseCalls => s.shared.Kept)
    (fun s e hfree hs => kept_step hs hfree) h (LeaseState.kept_start leases now)
  exact ⟨hkept.exclusive,hkept⟩

/-- `a` takes the lock, `b` is refused, and gets it when `a` has released. -/
def handover : List (PoolEvent ℚ LeaseRequest Bool) :=
  List.flatten [[.start (.acquire 1 "x" "a" 30),.start (.acquire 2 "x" "b" 30),
    .start (.release 1 "x" "a"),.start (.acquire 2 "x" "b" 30)],
    List.replicate 4 (.advance 0 true),[.outside 10],List.replicate 3 (.advance 1 true),
    List.replicate 3 (.advance 2 true),List.replicate 4 (.advance 3 true)]

/-- Both select before one of them inserts. -/
def race : List (PoolEvent ℚ LeaseRequest Bool) :=
  List.flatten [[.start (.acquire 1 "x" "a" 30),.start (.acquire 2 "x" "b" 30)],
    List.replicate 3 (.advance 0 true),List.replicate 3 (.advance 1 true),
    [.advance 0 true,.advance 1 true]]

theorem exclusive_handover :
    (run (Pool.step LeaseCall.program) ⟨LeaseState.start Table.empty 0,[]⟩
      handover).shared.Exclusive ∧
    (run (Pool.step LeaseCall.program) ⟨LeaseState.start Table.empty 0,[]⟩
      handover).shared.Kept :=
  exclusive_kept_of_stillFree Table.empty 0 handover (by decide +kernel)

theorem not_exclusive_race : ¬ ∀ leases now events,
    (run (Pool.step LeaseCall.program) ⟨LeaseState.start leases now,[]⟩
      events).shared.Exclusive := by
  intro h
  have hrace := h Table.empty 0 race ⟨"x","a",30⟩ (by decide +kernel) ⟨"x","b",30⟩
    (by decide +kernel) rfl (by decide +kernel) (by decide +kernel)
  revert hrace
  decide

end LeaseCalls
end Arsonist.Consensus
