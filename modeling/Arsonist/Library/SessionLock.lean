import Mathlib.Tactic

/-! Locks that a server grants to the sessions of its clients. At most one session holds a
lock; it may acquire it again, and it loses it when it ends. -/
namespace Arsonist.Library

/-- What clients rely on. A holder that acquires the lock again may have to release it as
often, so a release need not free it. -/
structure SessionLock (κ : Type) where
  State : Type
  init : State
  holder : State → Option κ
  tryAcquire : State → κ → State × Bool
  release : State → κ → State
  endSession : State → κ → State
  holder_init : holder init = none
  granted_iff : ∀ s k, (tryAcquire s k).2 = true ↔ holder s = none ∨ holder s = some k
  holder_tryAcquire : ∀ s k, holder (tryAcquire s k).1 =
    if (tryAcquire s k).2 then some k else holder s
  holder_release : ∀ s k j, j ≠ k → (holder (release s k) = some j ↔ holder s = some j)
  holder_endSession_own : ∀ s k, holder s = some k → holder (endSession s k) = none
  holder_endSession_other : ∀ s k, holder s ≠ some k → holder (endSession s k) = holder s

namespace SessionLock
variable {κ : Type} (lock : SessionLock κ) {s : lock.State} {j k : κ}

/-- Whoever holds the lock keeps it when a session tries to acquire it. -/
theorem keeps_tryAcquire (h : lock.holder s = some j) :
    lock.holder (lock.tryAcquire s k).1 = some j := by
  rw [lock.holder_tryAcquire]
  split_ifs with hg
  · obtain hnone | hown := (lock.granted_iff s k).mp hg
    · exact absurd (h.symm.trans hnone) (by simp)
    · exact hown.symm.trans h
  · exact h

theorem keeps_release (hjk : j ≠ k) (h : lock.holder s = some j) :
    lock.holder (lock.release s k) = some j := (lock.holder_release s k j hjk).mpr h

theorem keeps_endSession (hjk : j ≠ k) (h : lock.holder s = some j) :
    lock.holder (lock.endSession s k) = some j := by
  rw [lock.holder_endSession_other, h]
  rw [h]
  simpa using hjk

end SessionLock

/-- A lock that counts how often its holder has acquired it. -/
def countedLock (κ : Type) [DecidableEq κ] : SessionLock κ where
  State := Option (κ × ℕ)
  init := none
  holder s := s.map Prod.fst
  tryAcquire s k :=
    match s with
    | none => (some (k,1),true)
    | some (h,n) => if h = k then (some (h,n+1),true) else (some (h,n),false)
  release s k :=
    match s with
    | none => none
    | some (h,n) => if h = k then (if n ≤ 1 then none else some (h,n-1)) else some (h,n)
  endSession s k :=
    match s with
    | none => none
    | some (h,n) => if h = k then none else some (h,n)
  holder_init := rfl
  granted_iff s k := by
    obtain _ | ⟨h,n⟩ := s
    · simp
    · by_cases hk : h = k <;> simp [hk]
  holder_tryAcquire s k := by
    obtain _ | ⟨h,n⟩ := s
    · rfl
    · by_cases hk : h = k <;> simp [hk]
  holder_release s k j hj := by
    obtain _ | ⟨h,n⟩ := s
    · rfl
    · by_cases hk : h = k
      · subst hk
        by_cases hn : n ≤ 1 <;> simp [hn, Ne.symm hj]
      · simp [hk]
  holder_endSession_own s k hs := by
    obtain _ | ⟨h,n⟩ := s
    · rfl
    · obtain rfl : h = k := by simpa using hs
      simp
  holder_endSession_other s k hs := by
    obtain _ | ⟨h,n⟩ := s
    · rfl
    · have hk : h ≠ k := by simpa using hs
      simp [hk]

end Arsonist.Library
