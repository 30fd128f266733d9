import Mathlib.Algebra.Order.Floor.Ring
import Arsonist.Library.Steps

/-! A queue of the times of what was admitted, from which the old ones are dropped when something
arrives, and which is not to grow beyond a limit. The window is closed at both ends. -/
namespace Arsonist.Library.SlidingWindow

variable {K : Type*} [Field K] [LinearOrder K]

/-- Drop the times from the front that are out of the window. -/
def recent (width now : K) (q : List K) : List K := q.dropWhile fun t => width < now-t

section Machine
variable (width limit : K)

def Admits (q : List K) (now : K) : Prop := ((recent width now q).length : K) < limit

instance (q : List K) (now : K) : Decidable (Admits width limit q now) :=
  inferInstanceAs (Decidable (_ < _))

def arrive (q : List K) (now : K) : List K :=
  if Admits width limit q now then recent width now q ++ [now] else recent width now q

/-- What is admitted of some arrivals. -/
def admitted (arrivals : List K) : List K :=
  emitted (arrive width limit) (fun q now => if Admits width limit q now then some now else none)
    [] arrivals

end Machine

variable {width limit : K}

theorem admitted_concat (arrivals : List K) (now : K) :
    admitted width limit (arrivals ++ [now]) = admitted width limit arrivals ++
      if Admits width limit (run (arrive width limit) [] arrivals) now then [now] else [] := by
  rw [admitted, emitted_concat, admitted]
  split_ifs
  · rfl
  · rfl

theorem admitted_sublist (arrivals : List K) :
    (admitted width limit arrivals).Sublist arrivals := by
  induction arrivals using List.reverseRecOn with
  | nil => exact List.Sublist.refl []
  | append_singleton arrivals now ih =>
    rw [admitted_concat]
    refine ih.append ?_
    split_ifs
    · exact List.Sublist.refl [now]
    · exact List.nil_sublist [now]

variable [IsStrictOrderedRing K]

/-- Of times in order, those that are dropped are those out of the window. -/
theorem recent_eq_filter {q : List K} (h : q.Pairwise (· ≤ ·)) (now : K) :
    recent width now q = q.filter fun t => now-t ≤ width := by
  induction q with
  | nil => rfl
  | cons t q ih =>
    rw [List.pairwise_cons] at h
    by_cases ht : width < now-t
    · have hout : ¬ now-t ≤ width := not_le.mpr ht
      rw [List.filter_cons_of_neg (by rwa [decide_eq_true_iff]), ← ih h.2, recent, recent,
        List.dropWhile_cons_of_pos (by exact decide_eq_true ht)]
    · have hq : ∀ u ∈ q, now-u ≤ width := fun u hu =>
        (sub_le_sub_left (h.1 u hu) now).trans (not_lt.mp ht)
      rw [List.filter_cons_of_pos (by exact decide_eq_true (not_lt.mp ht)), recent,
        List.dropWhile_cons_of_neg (by exact fun hd => ht (of_decide_eq_true hd)),
        List.filter_eq_self.mpr fun u hu => decide_eq_true (hq u hu)]

/-- What is out of the window at one time is out of it later on. -/
theorem filter_filter_of_le {before now : K} (h : before ≤ now) (l : List K) :
    (l.filter fun t => before-t ≤ width).filter (fun t => now-t ≤ width) =
      l.filter fun t => now-t ≤ width := by
  rw [List.filter_filter]
  refine List.filter_congr fun t _ => ?_
  rw [← Bool.decide_and, decide_eq_decide]
  exact and_iff_left_of_imp fun ht => (sub_le_sub_right h t).trans ht

/-- After the old times are dropped, the queue holds what was admitted within the window. -/
theorem recent_run {arrivals : List K} (h : arrivals.Pairwise (· ≤ ·)) {now : K}
    (hnow : ∀ t ∈ arrivals, t ≤ now) :
    recent width now (run (arrive width limit) [] arrivals) =
      (admitted width limit arrivals).filter fun t => now-t ≤ width := by
  induction arrivals using List.reverseRecOn generalizing now with
  | nil => rfl
  | append_singleton arrivals m ih =>
    rw [List.pairwise_append] at h
    obtain ⟨hp,-,hm⟩ := h
    have hle : ∀ t ∈ arrivals, t ≤ m := fun t ht => hm t ht m (List.mem_singleton_self m)
    have hmn : m ≤ now := hnow m (List.mem_append_right _ (List.mem_singleton_self m))
    have hsorted : (admitted width limit (arrivals ++ [m])).Pairwise (· ≤ ·) := by
      refine List.Pairwise.sublist (admitted_sublist _) ?_
      rw [List.pairwise_append]
      exact ⟨hp,List.pairwise_singleton _ m,hm⟩
    have hrun : run (arrive width limit) [] (arrivals ++ [m]) =
        ((admitted width limit arrivals).filter fun t => m-t ≤ width) ++
          if Admits width limit (run (arrive width limit) [] arrivals) m then [m] else [] := by
      rw [run_concat, arrive, ih hp hle]
      split_ifs
      · rfl
      · rw [List.append_nil]
    have hqueue : (run (arrive width limit) [] (arrivals ++ [m])).Sublist
        (admitted width limit (arrivals ++ [m])) := by
      rw [hrun, admitted_concat]
      exact List.filter_sublist.append (List.Sublist.refl _)
    rw [recent_eq_filter (hsorted.sublist hqueue), hrun, admitted_concat, List.filter_append,
      List.filter_append, filter_filter_of_le hmn]

section Laws
variable {arrivals : List K} (h : arrivals.Pairwise (· ≤ ·))
include h

/-- No window contains more than the limit, rounded up. -/
theorem length_admitted_le [FloorRing K] (h₀ : 0 ≤ limit) (a : K) :
    (((admitted width limit arrivals).filter fun t => a ≤ t ∧ t ≤ a+width).length : ℤ) ≤
      ⌈limit⌉ := by
  induction arrivals using List.reverseRecOn with
  | nil => exact Int.ceil_nonneg h₀
  | append_singleton arrivals m ih =>
    rw [List.pairwise_append] at h
    obtain ⟨hp,-,hm⟩ := h
    have hle : ∀ t ∈ arrivals, t ≤ m := fun t ht => hm t ht m (List.mem_singleton_self m)
    rw [admitted_concat, List.filter_append, List.length_append]
    by_cases hadmit : Admits width limit (run (arrive width limit) [] arrivals) m
    · rw [if_pos hadmit]
      by_cases hin : a ≤ m ∧ m ≤ a+width
      · -- All that is counted before `m` is in the queue when `m` arrives.
        rw [Admits, recent_run hp hle] at hadmit
        have hsub : ((admitted width limit arrivals).filter fun t => a ≤ t ∧ t ≤ a+width).length ≤
            ((admitted width limit arrivals).filter fun t => m-t ≤ width).length := by
          refine List.Sublist.length_le (List.monotone_filter_right _ fun t ht => ?_)
          rw [decide_eq_true_iff] at ht ⊢
          linarith [ht.1, hin.2]
        rw [List.filter_cons_of_pos (by exact decide_eq_true hin), List.filter_nil, List.length_singleton]
        have hceil : (((admitted width limit arrivals).filter fun t => m-t ≤ width).length : ℤ) <
            ⌈limit⌉ := Int.lt_ceil.mpr (by rwa [Int.cast_natCast])
        omega
      · rw [List.filter_cons_of_neg (by simpa using hin), List.filter_nil]
        exact ih hp
    · rw [if_neg hadmit, List.filter_nil]
      exact ih hp

/-- What is not admitted comes when as many as the limit have been admitted within the window. -/
theorem limit_le_of_not_admits {now : K} (hnow : ∀ t ∈ arrivals, t ≤ now)
    (hno : ¬ Admits width limit (run (arrive width limit) [] arrivals) now) :
    limit ≤ ((admitted width limit arrivals).filter fun t => now-width ≤ t ∧ t ≤ now).length := by
  rw [Admits, recent_run h hnow, not_lt] at hno
  have hsame : ((admitted width limit arrivals).filter fun t => now-width ≤ t ∧ t ≤ now) =
      (admitted width limit arrivals).filter fun t => now-t ≤ width := by
    refine List.filter_congr fun t ht => ?_
    rw [decide_eq_decide, sub_le_comm]
    exact and_iff_left (hnow t ((admitted_sublist arrivals).subset ht))
  rwa [hsame]

end Laws
end Arsonist.Library.SlidingWindow
