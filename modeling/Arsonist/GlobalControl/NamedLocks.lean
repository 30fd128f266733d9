import Arsonist.Library.Floats
import Arsonist.Library.Keyed
import Arsonist.Library.Steps

/-! The named locks of the global control plane (`acquire_lock` and `release_lock` of
`global_control/consensus.py`), against the history of the calls on them. -/
namespace Arsonist.GlobalControl
open Arsonist.Library

structure NamedLock where
  name : String
  holder : String
  expiry : PyFloat
  acquiredAt : ℚ
  deriving DecidableEq

instance : Keyed NamedLock String := ⟨NamedLock.name⟩

@[simp] theorem NamedLock.key_eq (lock : NamedLock) : Keyed.key lock = lock.name := rfl

/-- The clock and the dictionary of locks. -/
structure NamedLocks where
  now : ℚ := 0
  locks : Table NamedLock := Table.empty

inductive LockCall
  | clock (now : ℚ)
  | acquireLock (name holder : String) (ttlSec : PyFloat)
  | releaseLock (name holder : String)
  deriving DecidableEq

/-- Somebody else has a lock that is not over. -/
def Blocked (lock : Option NamedLock) (now : ℚ) (holder : String) : Prop :=
  ∃ existing ∈ lock, existing.expiry.exceeds now = true ∧ existing.holder ≠ holder

instance (lock : Option NamedLock) (now : ℚ) (holder : String) :
    Decidable (Blocked lock now holder) :=
  inferInstanceAs (Decidable (∃ existing ∈ lock, _))

/-- The lock is the holder's own. -/
def Owned (lock : Option NamedLock) (holder : String) : Prop :=
  lock.map NamedLock.holder = some holder

instance (lock : Option NamedLock) (holder : String) : Decidable (Owned lock holder) :=
  inferInstanceAs (Decidable (_ = _))

namespace NamedLocks
variable (s : NamedLocks)

def acquireLock (name holder : String) (ttlSec : PyFloat) : NamedLocks × Bool :=
  if Blocked (s.locks.get? name) s.now holder then (s,false)
  else ({ s with locks := s.locks.put ⟨name,holder,ttlSec.after s.now,s.now⟩ },true)

def releaseLock (name holder : String) : NamedLocks × Bool :=
  if Owned (s.locks.get? name) holder then ({ s with locks := s.locks.erase name },true)
  else (s,false)

/-- A call and its result. The clock does not go backwards. -/
def call : LockCall → NamedLocks × Bool
  | .clock now => ({ s with now := max s.now now },true)
  | .acquireLock name holder ttlSec => s.acquireLock name holder ttlSec
  | .releaseLock name holder => s.releaseLock name holder

def step (s : NamedLocks) (c : LockCall) : NamedLocks := (s.call c).1

def reply (s : NamedLocks) (c : LockCall) : Bool := (s.call c).2

end NamedLocks

/-! ### The history -/

/-- Calls with the locks as each of them finds them. -/
abbrev LockHistory := List (NamedLocks × LockCall)

/-- What a call makes of the end of a holder's most recent acquire. -/
def heldNext (name holder : String) (held : Option PyFloat) (x : NamedLocks × LockCall) :
    Option PyFloat :=
  match x.2 with
  | .clock _ => held
  | .acquireLock name' holder' ttlSec =>
    if name' = name ∧ holder' = holder ∧ x.1.reply x.2 = true then some (ttlSec.after x.1.now)
    else held
  | .releaseLock name' holder' =>
    if name' = name ∧ holder' = holder ∧ x.1.reply x.2 = true then none else held

/-- The end of the holder's most recent successful acquire, if it is not released. -/
def heldUntil (name holder : String) (history : LockHistory) : Option PyFloat :=
  history.foldl (heldNext name holder) none

/-- What a call makes of the holder that is recorded. -/
def recordedNext (name : String) (holder : Option String) (x : NamedLocks × LockCall) :
    Option String :=
  match x.2 with
  | .clock _ => holder
  | .acquireLock name' holder' _ =>
    if name' = name ∧ x.1.reply x.2 = true then some holder' else holder
  | .releaseLock name' _ => if name' = name ∧ x.1.reply x.2 = true then none else holder

/-- The last holder to acquire the lock, unless it has been released. -/
def recorded (name : String) (history : LockHistory) : Option String :=
  history.foldl (recordedNext name) none

section Next
variable (s : NamedLocks) (name holder name' holder' : String) (held : Option PyFloat)

@[simp] theorem heldNext_acquireLock (ttlSec : PyFloat) :
    heldNext name holder held (s,.acquireLock name' holder' ttlSec) =
      if name' = name ∧ holder' = holder ∧ s.reply (.acquireLock name' holder' ttlSec) = true then
        some (ttlSec.after s.now)
      else held := rfl

@[simp] theorem heldNext_releaseLock :
    heldNext name holder held (s,.releaseLock name' holder') =
      if name' = name ∧ holder' = holder ∧ s.reply (.releaseLock name' holder') = true then none
      else held := rfl

end Next

theorem heldUntil_concat (name holder : String) (history : LockHistory)
    (x : NamedLocks × LockCall) :
    heldUntil name holder (history ++ [x]) =
      heldNext name holder (heldUntil name holder history) x := by
  rw [heldUntil, List.foldl_append]
  rfl

theorem recorded_concat (name : String) (history : LockHistory) (x : NamedLocks × LockCall) :
    recorded name (history ++ [x]) = recordedNext name (recorded name history) x := by
  rw [recorded, List.foldl_append]
  rfl

namespace NamedLocks
variable {s : NamedLocks} {name holder : String}

theorem call_acquire_granted (h : ¬ Blocked (s.locks.get? name) s.now holder)
    (ttlSec : PyFloat) :
    s.call (.acquireLock name holder ttlSec) =
      ({ s with locks := s.locks.put ⟨name,holder,ttlSec.after s.now,s.now⟩ },true) :=
  if_neg h

theorem call_acquire_refused (h : Blocked (s.locks.get? name) s.now holder) (ttlSec : PyFloat) :
    s.call (.acquireLock name holder ttlSec) = (s,false) :=
  if_pos h

theorem call_release_granted (h : Owned (s.locks.get? name) holder) :
    s.call (.releaseLock name holder) = ({ s with locks := s.locks.erase name },true) :=
  if_pos h

theorem call_release_refused (h : ¬ Owned (s.locks.get? name) holder) :
    s.call (.releaseLock name holder) = (s,false) :=
  if_neg h

/-- The dictionary agrees with the history: it has the recorded holders, and every acquire that is
neither released nor over. -/
structure Agrees (s : NamedLocks) (history : LockHistory) : Prop where
  recorded : ∀ name, recorded name history = (s.locks.get? name).map NamedLock.holder
  stored : ∀ name holder expiry, heldUntil name holder history = some expiry →
    expiry.exceeds s.now = true →
    ∃ lock, s.locks.get? name = some lock ∧ lock.holder = holder ∧ lock.expiry = expiry

variable {history : LockHistory}

/-- A refused call changes neither the dictionary nor what the history says. -/
theorem Agrees.refused (h : s.Agrees history) {c : LockCall} (hc : s.call c = (s,false)) :
    (s.step c).Agrees (history ++ [(s,c)]) := by
  have hstep : s.step c = s := congrArg Prod.fst hc
  have hreply : ¬ s.reply c = true := by
    rw [reply, hc]
    exact Bool.false_ne_true
  rw [hstep]
  refine ⟨fun name => ?_,fun name holder expiry hheld hlive => ?_⟩
  · rw [recorded_concat, ← h.recorded name]
    cases c with
    | clock now => rfl
    | acquireLock name' holder' ttlSec => exact if_neg fun hall => hreply hall.2
    | releaseLock name' holder' => exact if_neg fun hall => hreply hall.2
  · refine h.stored name holder expiry ?_ hlive
    rw [heldUntil_concat] at hheld
    rw [← hheld]
    cases c with
    | clock now => rfl
    | acquireLock name' holder' ttlSec => exact (if_neg fun hall => hreply hall.2.2).symm
    | releaseLock name' holder' => exact (if_neg fun hall => hreply hall.2.2).symm

theorem get?_acquired (h : ¬ Blocked (s.locks.get? name) s.now holder) (ttlSec : PyFloat)
    (name' : String) :
    (s.step (.acquireLock name holder ttlSec)).locks.get? name' =
      if name' = name then some ⟨name,holder,ttlSec.after s.now,s.now⟩
      else s.locks.get? name' := by
  rw [NamedLocks.step, call_acquire_granted h]
  exact Table.get?_put s.locks _ name'

theorem get?_released (h : Owned (s.locks.get? name) holder) (name' : String) :
    (s.step (.releaseLock name holder)).locks.get? name' =
      if name' = name then none else s.locks.get? name' := by
  rw [NamedLocks.step, call_release_granted h]
  exact Table.get?_erase s.locks name name'

/-- Nobody else has a lock that is live when it is acquired. -/
theorem Agrees.over (h : s.Agrees history) (hfree : ¬ Blocked (s.locks.get? name) s.now holder)
    {other : String} (hother : other ≠ holder) {expiry : PyFloat}
    (hheld : heldUntil name other history = some expiry) : expiry.exceeds s.now = false := by
  by_contra hlive
  obtain ⟨lock,hlock,rfl,rfl⟩ := h.stored name other expiry hheld (Bool.not_eq_false _ ▸ hlive)
  exact hfree ⟨lock,hlock,Bool.not_eq_false _ ▸ hlive,hother⟩

/-- A call that writes or removes the lock of one name, as the history has it. -/
theorem Agrees.write (h : s.Agrees history) {c : LockCall} {lock : Option NamedLock}
    (hnow : (s.step c).now = s.now)
    (hget : ∀ name', (s.step c).locks.get? name' =
      if name' = name then lock else s.locks.get? name')
    (hrecorded : ∀ name' recorded, recordedNext name' recorded (s,c) =
      if name' = name then lock.map NamedLock.holder else recorded)
    (hothers : ∀ name' holder' held, name' ≠ name → heldNext name' holder' held (s,c) = held)
    (hown : ∀ holder' expiry, heldNext name holder' (heldUntil name holder' history) (s,c) =
      some expiry → expiry.exceeds s.now = true →
      ∃ l, lock = some l ∧ l.holder = holder' ∧ l.expiry = expiry) :
    (s.step c).Agrees (history ++ [(s,c)]) := by
  refine ⟨fun name' => ?_,fun name' holder' expiry hheld hlive => ?_⟩
  · rw [hget, recorded_concat, hrecorded, h.recorded name']
    exact (apply_ite (Option.map NamedLock.holder) _ _ _).symm
  · rw [hnow] at hlive
    rw [heldUntil_concat] at hheld
    rw [hget]
    by_cases hname : name' = name
    · subst hname
      rw [if_pos rfl]
      exact hown holder' expiry hheld hlive
    · rw [hothers name' holder' _ hname] at hheld
      rw [if_neg hname]
      exact h.stored name' holder' expiry hheld hlive

theorem Agrees.acquired (h : s.Agrees history)
    (hfree : ¬ Blocked (s.locks.get? name) s.now holder) (ttlSec : PyFloat) :
    (s.step (.acquireLock name holder ttlSec)).Agrees
      (history ++ [(s,.acquireLock name holder ttlSec)]) := by
  have hcall := call_acquire_granted hfree ttlSec
  have hreply : s.reply (.acquireLock name holder ttlSec) = true := congrArg Prod.snd hcall
  refine h.write ?_ (get?_acquired hfree ttlSec) ?_ ?_ ?_
  · rw [NamedLocks.step, hcall]
  · intro name' recorded
    simp [recordedNext, hreply, eq_comm]
  · intro name' holder' held hname
    exact if_neg fun hall => hname hall.1.symm
  · intro holder' expiry hheld hlive
    rw [heldNext_acquireLock] at hheld
    by_cases hholder : holder' = holder
    · subst hholder
      rw [if_pos ⟨rfl,rfl,hreply⟩] at hheld
      exact ⟨_,rfl,rfl,Option.some.inj hheld⟩
    · -- whoever had it before has it no longer
      rw [if_neg fun hall => hholder hall.2.1.symm] at hheld
      rw [h.over hfree hholder hheld] at hlive
      cases hlive

theorem Agrees.released (h : s.Agrees history) (howned : Owned (s.locks.get? name) holder) :
    (s.step (.releaseLock name holder)).Agrees
      (history ++ [(s,.releaseLock name holder)]) := by
  have hcall := call_release_granted howned
  have hreply : s.reply (.releaseLock name holder) = true := congrArg Prod.snd hcall
  refine h.write ?_ (get?_released howned) ?_ ?_ ?_
  · rw [NamedLocks.step, hcall]
  · intro name' recorded
    simp [recordedNext, hreply, eq_comm]
  · intro name' holder' held hname
    exact if_neg fun hall => hname hall.1.symm
  · intro holder' expiry hheld hlive
    rw [heldNext_releaseLock] at hheld
    by_cases hholder : holder' = holder
    · rw [if_pos ⟨rfl,hholder.symm,hreply⟩] at hheld
      cases hheld
    · -- the lock was not theirs
      rw [if_neg fun hall => hholder hall.2.1.symm] at hheld
      obtain ⟨lock,hlock,rfl,_⟩ := h.stored name holder' expiry hheld hlive
      rw [Owned, hlock] at howned
      exact absurd (Option.some.inj howned) hholder

theorem Agrees.step (h : s.Agrees history) (c : LockCall) :
    (s.step c).Agrees (history ++ [(s,c)]) := by
  cases c with
  | clock now =>
    refine ⟨fun name => ?_,fun name holder expiry hheld hlive => ?_⟩
    · rw [recorded_concat]
      exact h.recorded name
    · rw [heldUntil_concat] at hheld
      exact h.stored name holder expiry hheld (PyFloat.exceeds_mono (le_max_left _ _) hlive)
  | acquireLock name holder ttlSec =>
    by_cases hblocked : Blocked (s.locks.get? name) s.now holder
    · exact h.refused (call_acquire_refused hblocked ttlSec)
    · exact h.acquired hblocked ttlSec
  | releaseLock name holder =>
    by_cases howned : Owned (s.locks.get? name) holder
    · exact h.released howned
    · exact h.refused (call_release_refused howned)

theorem agrees_run (calls : List LockCall) :
    (run NamedLocks.step {} calls).Agrees (steps NamedLocks.step {} calls) := by
  induction calls using List.reverseRecOn with
  | nil => exact ⟨fun _ => rfl,fun _ _ _ => nofun⟩
  | append_singleton calls c ih =>
    rw [run_concat, steps_concat]
    exact ih.step c

/-! ### One name at a time -/

/-- The calls on one name, and the clock. -/
def About (name : String) : LockCall → Prop
  | .clock _ => True
  | .acquireLock name' _ _ => name' = name
  | .releaseLock name' _ => name' = name

instance (name : String) : DecidablePred (About name)
  | .clock _ => .isTrue trivial
  | .acquireLock name' _ _ => inferInstanceAs (Decidable (name' = name))
  | .releaseLock name' _ => inferInstanceAs (Decidable (name' = name))

/-- Two states are the same as far as one name goes. -/
def SameFor (name : String) (s t : NamedLocks) : Prop :=
  s.now = t.now ∧ s.locks.get? name = t.locks.get? name

/-- A call on another name changes nothing. -/
theorem sameFor_other {c : LockCall} (h : ¬ About name c) (s : NamedLocks) :
    SameFor name (s.step c) s := by
  cases c with
  | clock now => exact absurd trivial h
  | acquireLock name' holder ttlSec =>
    by_cases hblocked : Blocked (s.locks.get? name') s.now holder
    · rw [NamedLocks.step, call_acquire_refused hblocked]
      exact ⟨rfl,rfl⟩
    · refine ⟨?_,?_⟩
      · rw [NamedLocks.step, call_acquire_granted hblocked]
      · rw [get?_acquired hblocked]
        exact if_neg fun hname => h hname.symm
  | releaseLock name' holder =>
    by_cases howned : Owned (s.locks.get? name') holder
    · refine ⟨?_,?_⟩
      · rw [NamedLocks.step, call_release_granted howned]
      · rw [get?_released howned]
        exact if_neg fun hname => h hname.symm
    · rw [NamedLocks.step, call_release_refused howned]
      exact ⟨rfl,rfl⟩

/-- A call on the name does the same to both, with the same result. -/
theorem SameFor.call {t : NamedLocks} (h : SameFor name s t) {c : LockCall} (hc : About name c) :
    SameFor name (s.step c) (t.step c) ∧ s.reply c = t.reply c := by
  obtain ⟨hnow,hlock⟩ := h
  cases c with
  | clock now => exact ⟨⟨congrArg (max · now) hnow,hlock⟩,rfl⟩
  | acquireLock name' holder ttlSec =>
    obtain rfl : name' = name := hc
    by_cases hblocked : Blocked (s.locks.get? name') s.now holder
    · have hblocked' : Blocked (t.locks.get? name') t.now holder := hlock ▸ hnow ▸ hblocked
      rw [NamedLocks.step, NamedLocks.step, reply, reply, call_acquire_refused hblocked,
        call_acquire_refused hblocked']
      exact ⟨⟨hnow,hlock⟩,rfl⟩
    · have hfree : ¬ Blocked (t.locks.get? name') t.now holder := hlock ▸ hnow ▸ hblocked
      refine ⟨⟨?_,?_⟩,?_⟩
      · rw [NamedLocks.step, NamedLocks.step, call_acquire_granted hblocked,
          call_acquire_granted hfree]
        exact hnow
      · rw [get?_acquired hblocked, get?_acquired hfree, if_pos rfl, if_pos rfl, hnow]
      · rw [reply, reply, call_acquire_granted hblocked, call_acquire_granted hfree]
  | releaseLock name' holder =>
    obtain rfl : name' = name := hc
    by_cases howned : Owned (s.locks.get? name') holder
    · have howned' : Owned (t.locks.get? name') holder := hlock ▸ howned
      refine ⟨⟨?_,?_⟩,?_⟩
      · rw [NamedLocks.step, NamedLocks.step, call_release_granted howned,
          call_release_granted howned']
        exact hnow
      · rw [get?_released howned, get?_released howned', if_pos rfl, if_pos rfl]
      · rw [reply, reply, call_release_granted howned, call_release_granted howned']
    · have howned' : ¬ Owned (t.locks.get? name') holder := hlock ▸ howned
      rw [NamedLocks.step, NamedLocks.step, reply, reply, call_release_refused howned,
        call_release_refused howned']
      exact ⟨⟨hnow,hlock⟩,rfl⟩

/-- The calls on other names can be left out. -/
theorem sameFor_filter (name : String) (calls : List LockCall) :
    SameFor name (run NamedLocks.step {} calls)
      (run NamedLocks.step {} (calls.filter (About name ·))) := by
  induction calls using List.reverseRecOn with
  | nil => exact ⟨rfl,rfl⟩
  | append_singleton calls c ih =>
    rw [run_concat, List.filter_append]
    by_cases hc : About name c
    · rw [List.filter_singleton, decide_eq_true hc, cond_true, run_concat]
      exact (ih.call hc).1
    · rw [List.filter_singleton, decide_eq_false hc, cond_false, List.append_nil]
      have hother := sameFor_other hc (run NamedLocks.step {} calls)
      exact ⟨hother.1.trans ih.1,hother.2.trans ih.2⟩

/-- What the named locks promise in a run of calls. -/
structure Exclude (calls : List LockCall) : Prop where
  /-- Nobody else's latest acquire is unreleased and live when a lock is acquired. -/
  exclusive : ∀ before name holder ttlSec after,
    calls = before ++ .acquireLock name holder ttlSec :: after →
    (run NamedLocks.step {} before).reply (.acquireLock name holder ttlSec) = true →
    ∀ other, other ≠ holder → ∀ expiry,
      heldUntil name other (steps NamedLocks.step {} before) = some expiry →
      expiry.exceeds (run NamedLocks.step {} before).now = false
  /-- A lock is released by the holder that was recorded last, and by nobody else. -/
  released : ∀ before name holder after,
    calls = before ++ .releaseLock name holder :: after →
    ((run NamedLocks.step {} before).reply (.releaseLock name holder) = true ↔
      GlobalControl.recorded name (steps NamedLocks.step {} before) = some holder)
  /-- The calls on a name do what they would do without the others. -/
  separate : ∀ before name c after, calls = before ++ c :: after → About name c →
    SameFor name (run NamedLocks.step {} (before ++ [c]))
      (run NamedLocks.step {} ((before ++ [c]).filter (About name ·))) ∧
    (run NamedLocks.step {} before).reply c =
      (run NamedLocks.step {} (before.filter (About name ·))).reply c

/-- The named locks exclude each other's holders, and each name is on its own. -/
theorem named_locks_exclude (calls : List LockCall) : Exclude calls where
  exclusive := by
    intro before name holder ttlSec after _ hgranted other hother expiry hheld
    refine (agrees_run before).over (fun hblocked => ?_) hother hheld
    rw [reply, call_acquire_refused hblocked] at hgranted
    cases hgranted
  released := by
    intro before name holder after _
    rw [(agrees_run before).recorded name]
    by_cases howned : Owned ((run NamedLocks.step {} before).locks.get? name) holder
    · rw [reply, call_release_granted howned]
      exact iff_of_true rfl howned
    · rw [reply, call_release_refused howned]
      exact iff_of_false nofun howned
  separate := by
    intro before name c after _ hc
    exact ⟨sameFor_filter name (before ++ [c]),((sameFor_filter name before).call hc).2⟩

end NamedLocks
end Arsonist.GlobalControl
