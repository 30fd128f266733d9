import Arsonist.Library.Eviction
import Arsonist.Library.Steps
import Arsonist.Library.Sums
import Arsonist.Replication.CacheReplication

/-! How much a fabric stores: its counter is the sum of the sizes of its entries and keeps to the
limit. Room is made for an entry before the one that it replaces is taken into account. -/
namespace Arsonist.Replication
open Arsonist.Library

/-- A call to a fabric, with the times that it reads. -/
inductive FabricCall where
  | put (now : ℚ) (key : String) (entryType : CacheEntryType) (sizeBytes : ℤ) (ttlSec : ℚ)
  | get (now accessed : ℚ) (key : String)
  | invalidate (key : String)
  | invalidateByType (entryType : CacheEntryType)
  | receiveInvalidation (key sourceRegion : String)
  | cleanupExpired (now : ℚ)
  | getWarmCandidates

/-- The size that a call stores is not negative and within a limit. -/
def FabricCall.Within (maxSizeBytes : ℤ) : FabricCall → Prop
  | .put _ _ _ sizeBytes _ => 0 ≤ sizeBytes ∧ sizeBytes ≤ maxSizeBytes
  | _ => True

instance (maxSizeBytes : ℤ) (c : FabricCall) : Decidable (c.Within maxSizeBytes) :=
  match c with
  | .put _ _ _ _ _ => inferInstanceAs (Decidable (_ ∧ _))
  | .get _ _ _ => .isTrue trivial
  | .invalidate _ => .isTrue trivial
  | .invalidateByType _ => .isTrue trivial
  | .receiveInvalidation _ _ => .isTrue trivial
  | .cleanupExpired _ => .isTrue trivial
  | .getWarmCandidates => .isTrue trivial

namespace DistributedCacheFabric

def exec (f : DistributedCacheFabric) : FabricCall → DistributedCacheFabric
  | .put now key entryType sizeBytes ttlSec => f.put now key entryType sizeBytes ttlSec
  | .get now accessed key => (f.get now accessed key).1
  | .invalidate key => (f.invalidate key).1
  | .invalidateByType entryType => (f.invalidateByType entryType).1
  | .receiveInvalidation key sourceRegion => f.receiveInvalidation key sourceRegion
  | .cleanupExpired now => (f.cleanupExpired now).1
  | .getWarmCandidates => f.getWarmCandidates.1

/-- The sizes of all entries together. -/
def stored (f : DistributedCacheFabric) : ℤ := f.entries.sum CacheEntry.sizeBytes

/-- The condition of the loop of `put`, of what is stored at the time. -/
def Short (f : DistributedCacheFabric) (sizeBytes : ℤ) (t : Table CacheEntry) : Prop :=
  f.maxSizeBytes < t.sum CacheEntry.sizeBytes+sizeBytes ∧ t.entries ≠ []

/-- The counter is what is stored, and no size is negative. -/
abbrev Sized (f : DistributedCacheFabric) : Prop :=
  f.entries.Counted CacheEntry.sizeBytes f.currentSize

variable {f f' : DistributedCacheFabric}

theorem get?_self {e : CacheEntry} (he : e ∈ f.entries.entries) :
    f.entries.get? e.key = some e := Table.get?_of_mem he

theorem Sized.remove (h : f.Sized) {e : CacheEntry} (he : e ∈ f.entries.entries) :
    (f.remove e).Sized := h.erase (get?_self he)

/-- The loop of `put` ends after it has evicted some entries. -/
theorem evicts_makeRoom (sizeBytes : ℤ) (turns : ℕ) (h : f.Sized)
    (hturns : f.entries.entries.length ≤ turns) :
    (makeRoom sizeBytes turns f).Sized ∧
      (makeRoom sizeBytes turns f).maxSizeBytes = f.maxSizeBytes ∧
      ∃ es, Table.Evicts CacheEntry.lastAccessed (f.Short sizeBytes) f.entries es
        (makeRoom sizeBytes turns f).entries := by
  induction turns generalizing f with
  | zero =>
    refine ⟨h,rfl,[],.done fun hshort => hshort.2 ?_⟩
    exact List.length_eq_zero_iff.mp (Nat.le_zero.mp hturns)
  | succ turns ih =>
    have hiff : f.maxSizeBytes < f.currentSize+sizeBytes ∧ f.entries.entries ≠ [] ↔
        f.Short sizeBytes f.entries := by rw [h.eq_sum]; rfl
    rw [makeRoom]
    by_cases hshort : f.Short sizeBytes f.entries
    · rw [if_pos (hiff.mpr hshort), evictLru]
      cases hmin : f.entries.entries.argmin CacheEntry.lastAccessed with
      | none => exact absurd (List.argmin_eq_none.mp hmin) hshort.2
      | some e =>
        have he := List.argmin_mem hmin
        have hlength := Table.length_erase_of_some (get?_self he)
        have hsized := h.remove he
        obtain ⟨hnext,hmax,es,hevicts⟩ := ih
          (f := { f.remove e with evictionCount := f.evictionCount+1 }) hsized
          (by change (f.entries.erase e.key).entries.length ≤ _; omega)
        exact ⟨hnext,hmax,e :: es,.evict hshort hmin hevicts⟩
    · rw [if_neg (hiff.not.mpr hshort)]
      exact ⟨h,rfl,[],.done hshort⟩

/-- After the loop there is room for an entry within the limit. -/
theorem room_for (h : f.Sized) {sizeBytes : ℤ} (hsize : sizeBytes ≤ f.maxSizeBytes) :
    (makeRoom sizeBytes f.entries.entries.length f).currentSize+sizeBytes ≤ f.maxSizeBytes := by
  obtain ⟨hsized,hmax,es,hevicts⟩ := evicts_makeRoom sizeBytes _ h le_rfl
  have hshort := hevicts.not_full
  rw [Short, not_and_or, not_lt, not_not] at hshort
  obtain hroom | hnil := hshort
  · rw [hsized.eq_sum]
    exact hroom
  · rw [hsized.eq_zero hnil, zero_add]
    exact hsize

/-- `put` adds the size of the entry, in exchange for that of the one it replaces. -/
theorem Sized.put (h : f.Sized) (now : ℚ) (key : String) (entryType : CacheEntryType)
    {sizeBytes : ℤ} (hsize : 0 ≤ sizeBytes) (ttlSec : ℚ) :
    (f.put now key entryType sizeBytes ttlSec).Sized := by
  obtain ⟨hsized,-,-⟩ := evicts_makeRoom sizeBytes _ h le_rfl
  rw [DistributedCacheFabric.put]
  generalize makeRoom sizeBytes f.entries.entries.length f = f' at hsized ⊢
  have hold : ((f'.entries.get? key).map CacheEntry.sizeBytes).getD 0 =
      (f'.entries.get? key).elim 0 CacheEntry.sizeBytes := by
    cases f'.entries.get? key <;> rfl
  rw [Sized, hold]
  exact Table.Counted.put hsized hsize

theorem put_le (h : f.Sized) (now : ℚ) (key : String) (entryType : CacheEntryType)
    {sizeBytes : ℤ} (hsize : sizeBytes ≤ f.maxSizeBytes) (ttlSec : ℚ) :
    (f.put now key entryType sizeBytes ttlSec).currentSize ≤ f.maxSizeBytes := by
  have hroom := room_for h hsize
  obtain ⟨hsized,-,-⟩ := evicts_makeRoom sizeBytes _ h le_rfl
  have hold : 0 ≤ (((makeRoom sizeBytes f.entries.entries.length f).entries.get? key).map
      CacheEntry.sizeBytes).getD 0 := by
    cases hget : (makeRoom sizeBytes f.entries.entries.length f).entries.get? key with
    | none => exact le_rfl
    | some e => exact hsized.nonneg e (Table.mem_of_get? hget)
  rw [DistributedCacheFabric.put]
  dsimp only
  omega

/-- A call that stores nothing new: the counter stays right, and does not grow. -/
structure Shrinks (f f' : DistributedCacheFabric) : Prop where
  sized : f'.Sized
  size_le : f'.currentSize ≤ f.currentSize
  maxSizeBytes : f'.maxSizeBytes = f.maxSizeBytes

theorem Shrinks.refl (h : f.Sized) : Shrinks f f := ⟨h,le_rfl,rfl⟩

theorem Shrinks.trans {f'' : DistributedCacheFabric} (h : Shrinks f f') (h' : Shrinks f' f'') :
    Shrinks f f'' :=
  ⟨h'.sized,h'.size_le.trans h.size_le,h'.maxSizeBytes.trans h.maxSizeBytes⟩

theorem shrinks_remove (h : f.Sized) {e : CacheEntry} (he : e ∈ f.entries.entries) :
    Shrinks f (f.remove e) :=
  ⟨h.remove he,sub_le_self _ (h.nonneg e he),rfl⟩

theorem shrinks_get (h : f.Sized) (now accessed : ℚ) (key : String) :
    Shrinks f (f.get now accessed key).1 := by
  rw [get]
  cases hget : f.entries.get? key with
  | none => exact ⟨h,le_rfl,rfl⟩
  | some e =>
    obtain rfl : e.key = key := Table.key_of_get? hget
    have hput := Table.Counted.put_same h
      (a := { e with lastAccessed := accessed, accessCount := e.accessCount+1 }) hget rfl
    dsimp only
    split_ifs
    · have hremove := shrinks_remove h (Table.mem_of_get? hget)
      exact ⟨hremove.sized,hremove.size_le,rfl⟩
    · exact ⟨hput,le_rfl,rfl⟩
    · exact ⟨hput,le_rfl,rfl⟩

theorem shrinks_invalidate (h : f.Sized) (key : String) : Shrinks f (f.invalidate key).1 := by
  rw [invalidate]
  cases hget : f.entries.get? key with
  | none => exact .refl h
  | some e =>
    obtain rfl : e.key = key := Table.key_of_get? hget
    exact ⟨Table.Counted.put_same h (a := { e with invalidated := true }) hget rfl,le_rfl,rfl⟩

/-- Marking some of the entries changes no size. -/
theorem sized_mark (es : List CacheEntry) (h : f.Sized)
    (hes : ∀ e ∈ es, (f.entries.get? e.key).map CacheEntry.sizeBytes = some e.sizeBytes) :
    Sized { f with
      entries := es.foldl (fun t e => t.put { e with invalidated := true }) f.entries } := by
  induction es generalizing f with
  | nil => exact h
  | cons e es ih =>
    obtain ⟨he,hes⟩ := List.forall_mem_cons.mp hes
    obtain ⟨old,hget,hold⟩ := Option.map_eq_some_iff.mp he
    refine ih (f := { f with entries := f.entries.put { e with invalidated := true } })
      (Table.Counted.put_same h (a := { e with invalidated := true }) hget hold.symm)
      fun e' he' => ?_
    dsimp only
    rw [Table.get?_put]
    split_ifs with hsame
    · have hstored := hes e' he'
      change e'.key = e.key at hsame
      rw [hsame, he] at hstored
      exact hstored
    · exact hes e' he'

theorem shrinks_invalidateByType (h : f.Sized) (entryType : CacheEntryType) :
    Shrinks f (f.invalidateByType entryType).1 := by
  have hmark := sized_mark (f.marked entryType) h fun e he => by
    rw [get?_self (List.mem_of_mem_filter he)]
    rfl
  exact ⟨hmark,le_rfl,rfl⟩

theorem shrinks_receiveInvalidation (h : f.Sized) (key sourceRegion : String) :
    Shrinks f (f.receiveInvalidation key sourceRegion) := by
  rw [receiveInvalidation]
  split_ifs
  · exact .refl h
  · exact shrinks_invalidate h key

/-- Entries with different keys, removed one after the other. -/
theorem shrinks_removeAll (es : List CacheEntry) (hn : (es.map CacheEntry.key).Nodup) (h : f.Sized)
    (hes : ∀ e ∈ es, e ∈ f.entries.entries) :
    Shrinks f (es.foldl (fun f e => { f.remove e with evictionCount := f.evictionCount+1 }) f) := by
  induction es generalizing f with
  | nil => exact .refl h
  | cons e es ih =>
    obtain ⟨hkey,hn⟩ := List.nodup_cons.mp hn
    obtain ⟨he,hes⟩ := List.forall_mem_cons.mp hes
    have hremove := shrinks_remove h he
    have hone : Shrinks f { f.remove e with evictionCount := f.evictionCount+1 } :=
      ⟨hremove.sized,hremove.size_le,rfl⟩
    refine hone.trans (ih hn hone.sized fun e' he' => Table.mem_erase.mpr ⟨hes e' he',?_⟩)
    exact fun hsame => hkey (hsame ▸ List.mem_map_of_mem he')

theorem shrinks_cleanupExpired (h : f.Sized) (now : ℚ) : Shrinks f (f.cleanupExpired now).1 :=
  shrinks_removeAll _ (f.entries.nodup.sublist (List.filter_sublist.map _)) h
    fun _ he => List.mem_of_mem_filter he

/-- What every call keeps: the counter is right, and within the limit once it was. -/
theorem sized_exec (h : f.Sized) {c : FabricCall} (hc : c.Within f.maxSizeBytes) :
    (f.exec c).Sized ∧ (f.exec c).maxSizeBytes = f.maxSizeBytes ∧
      (f.currentSize ≤ f.maxSizeBytes → (f.exec c).currentSize ≤ f.maxSizeBytes) := by
  have hshrinks : ∀ f', Shrinks f f' → f'.Sized ∧ f'.maxSizeBytes = f.maxSizeBytes ∧
      (f.currentSize ≤ f.maxSizeBytes → f'.currentSize ≤ f.maxSizeBytes) := fun f' h' =>
    ⟨h'.sized,h'.maxSizeBytes,h'.size_le.trans⟩
  cases c with
  | put now key entryType sizeBytes ttlSec =>
    obtain ⟨-,hmax,-⟩ := evicts_makeRoom sizeBytes _ h le_rfl
    exact ⟨h.put now key entryType hc.1 ttlSec,hmax,
      fun _ => put_le h now key entryType hc.2 ttlSec⟩
  | get now accessed key => exact hshrinks _ (shrinks_get h now accessed key)
  | invalidate key => exact hshrinks _ (shrinks_invalidate h key)
  | invalidateByType entryType => exact hshrinks _ (shrinks_invalidateByType h entryType)
  | receiveInvalidation key sourceRegion =>
    exact hshrinks _ (shrinks_receiveInvalidation h key sourceRegion)
  | cleanupExpired now => exact hshrinks _ (shrinks_cleanupExpired h now)
  | getWarmCandidates => exact hshrinks _ ⟨h,le_rfl,rfl⟩

section New
variable (localRegion : String) (maxSizeBytes warmingThreshold : ℤ) (onInvalidate : Bool)

/-- `__init__`. -/
abbrev init : DistributedCacheFabric :=
  { localRegion := localRegion, maxSizeBytes := maxSizeBytes,
    warmingThreshold := warmingThreshold, onInvalidate := onInvalidate }

theorem sized_run (calls : List FabricCall) (h : ∀ c ∈ calls, c.Within maxSizeBytes) :
    let f := run exec (init localRegion maxSizeBytes warmingThreshold onInvalidate) calls
    f.Sized ∧ f.maxSizeBytes = maxSizeBytes ∧
      (0 ≤ maxSizeBytes → f.currentSize ≤ maxSizeBytes) := by
  have hstep : ∀ (f : DistributedCacheFabric) (c : FabricCall), c.Within maxSizeBytes →
      (f.Sized ∧ f.maxSizeBytes = maxSizeBytes ∧
        (0 ≤ maxSizeBytes → f.currentSize ≤ maxSizeBytes)) →
      (f.exec c).Sized ∧ (f.exec c).maxSizeBytes = maxSizeBytes ∧
        (0 ≤ maxSizeBytes → (f.exec c).currentSize ≤ maxSizeBytes) := by
    rintro f c hc ⟨hsized,rfl,hle⟩
    obtain ⟨hnext,hmax,hbound⟩ := sized_exec hsized hc
    exact ⟨hnext,hmax,fun hpos => hbound (hle hpos)⟩
  exact run_invariant hstep (along_of_forall h _)
    ⟨Table.counted_empty,rfl,id⟩

/-- The counter is the sum of the sizes that are stored and does not exceed the limit, and the loop
of each `put` ends. -/
theorem currentSize_eq_stored (calls : List FabricCall)
    (h : ∀ c ∈ calls, c.Within maxSizeBytes) :
    let f := run exec (init localRegion maxSizeBytes warmingThreshold onInvalidate) calls
    f.currentSize = f.stored ∧ (0 ≤ maxSizeBytes → f.currentSize ≤ f.maxSizeBytes) ∧
      ∀ sizeBytes, ∃ es, Table.Evicts CacheEntry.lastAccessed (f.Short sizeBytes) f.entries es
        (makeRoom sizeBytes f.entries.entries.length f).entries := by
  intro f
  obtain ⟨hsized,hmax,hle⟩ :=
    sized_run localRegion maxSizeBytes warmingThreshold onInvalidate calls h
  refine ⟨hsized.eq_sum,?_,fun sizeBytes => (evicts_makeRoom sizeBytes _ hsized le_rfl).2.2⟩
  rw [hmax]
  exact hle

end New

/-- A fabric in which the loop evicts the entry that is replaced. -/
def replacedTwice : List FabricCall :=
  [.put 0 "a" .model 6 60,.put 1 "b" .tokenizer 3 60,.put 2 "a" .model 7 60,.invalidate "b",
    .cleanupExpired 3,.get 4 4 "a"]

theorem currentSize_replacedTwice :
    let f := run exec (init "eu" 10 5 false) replacedTwice
    f.currentSize = f.stored ∧ (0 ≤ (10 : ℤ) → f.currentSize ≤ f.maxSizeBytes) ∧
      ∀ sizeBytes, ∃ es, Table.Evicts CacheEntry.lastAccessed (f.Short sizeBytes) f.entries es
        (makeRoom sizeBytes f.entries.entries.length f).entries :=
  currentSize_eq_stored "eu" 10 5 false replacedTwice (by decide)

section Replace

/-- There is room already, and nothing is evicted. -/
theorem makeRoom_of_room {sizeBytes : ℤ} (h : f.currentSize+sizeBytes ≤ f.maxSizeBytes)
    (turns : ℕ) : makeRoom sizeBytes turns f = f := by
  cases turns with
  | zero => rfl
  | succ turns => exact if_neg fun hfull => absurd hfull.1 (not_lt.mpr h)

theorem get?_evictLru {k : String} (h : f.entries.get? k = none) :
    f.evictLru.entries.get? k = none := by
  rw [evictLru]
  split
  · exact h
  · change (f.entries.erase _).get? k = none
    rw [Table.get?_erase, h, ite_self]

theorem get?_makeRoom (sizeBytes : ℤ) (turns : ℕ) {k : String} (h : f.entries.get? k = none) :
    (makeRoom sizeBytes turns f).entries.get? k = none := by
  induction turns generalizing f with
  | zero => exact h
  | succ turns ih =>
    rw [makeRoom]
    split_ifs
    · exact ih (get?_evictLru h)
    · exact h

theorem get?_put_of_ne (now : ℚ) {key other : String} (hother : other ≠ key)
    (entryType : CacheEntryType) (sizeBytes : ℤ) (ttlSec : ℚ) :
    (f.put now key entryType sizeBytes ttlSec).entries.get? other =
      (makeRoom sizeBytes f.entries.entries.length f).entries.get? other := by
  change ((makeRoom sizeBytes f.entries.entries.length f).entries.put _).get? other = _
  rw [Table.get?_put]
  exact if_neg hother

/-- A `put` under a stored key, of an entry for which there is room once the old one is gone, keeps
all other keys exactly when there is room before that, or the loop evicts the old entry first. -/
theorem put_keeps_others_iff (f : DistributedCacheFabric) (now : ℚ) (key : String)
    (entryType : CacheEntryType) (sizeBytes : ℤ) (ttlSec : ℚ) (old : CacheEntry)
    (hold : f.entries.get? key = some old)
    (hfits : f.currentSize-old.sizeBytes+sizeBytes ≤ f.maxSizeBytes) :
    (∀ other, other ≠ key → (f.entries.get? other).isSome →
        ((f.put now key entryType sizeBytes ttlSec).entries.get? other).isSome) ↔
      f.currentSize+sizeBytes ≤ f.maxSizeBytes ∨
        f.entries.entries.argmin CacheEntry.lastAccessed = some old := by
  by_cases hroom : f.currentSize+sizeBytes ≤ f.maxSizeBytes
  · refine iff_of_true (fun other hother hget => ?_) (Or.inl hroom)
    rw [get?_put_of_ne now hother, makeRoom_of_room hroom]
    exact hget
  have hne : f.entries.entries ≠ [] := List.ne_nil_of_mem (Table.mem_of_get? hold)
  obtain ⟨turns,hturns⟩ := Nat.exists_eq_succ_of_ne_zero (List.length_pos_iff.mpr hne).ne'
  have hloop : makeRoom sizeBytes f.entries.entries.length f =
      makeRoom sizeBytes turns f.evictLru := by
    rw [hturns]
    exact if_pos ⟨not_le.mp hroom,hne⟩
  cases hmin : f.entries.entries.argmin CacheEntry.lastAccessed with
  | none => exact absurd (List.argmin_eq_none.mp hmin) hne
  | some e =>
    have hevict : f.evictLru = { f.remove e with evictionCount := f.evictionCount+1 } := by
      rw [evictLru, hmin]
    have he : f.entries.get? e.key = some e := Table.get?_of_mem (List.argmin_mem hmin)
    rw [or_iff_right hroom, Option.some.injEq]
    constructor
    · intro hkeeps
      by_contra hother
      have hkey : e.key ≠ key := fun hsame => hother (Option.some.inj (by rw [← he, hsame, hold]))
      have hkept := hkeeps e.key hkey (Option.isSome_of_mem he)
      have hgone : f.evictLru.entries.get? e.key = none := by
        rw [hevict]
        change (f.entries.erase e.key).get? e.key = none
        rw [Table.get?_erase, if_pos rfl]
      rw [get?_put_of_ne now hkey, hloop, get?_makeRoom sizeBytes turns hgone] at hkept
      cases hkept
    · rintro rfl other hother hget
      have hkey : e.key = key := Table.key_of_get? hold
      have hsize : f.evictLru.currentSize+sizeBytes ≤ f.evictLru.maxSizeBytes := by
        rw [hevict]
        exact hfits
      rw [get?_put_of_ne now hother, hloop, makeRoom_of_room hsize, hevict]
      change ((f.entries.erase e.key).get? other).isSome
      rwa [Table.get?_erase, if_neg (hkey ▸ hother)]

/-- An entry is replaced by one of the same size while the fabric is full. -/
theorem put_keeps_others_sameSize :
    let f := run exec (init "eu" 10 5 false) [.put 0 "b" .model 4 60,.put 1 "a" .model 6 60]
    (∀ other, other ≠ "b" → (f.entries.get? other).isSome →
        ((f.put 2 "b" .model 4 60).entries.get? other).isSome) ↔
      f.currentSize+4 ≤ f.maxSizeBytes ∨ f.entries.entries.argmin CacheEntry.lastAccessed =
        some { serial := 0, key := "b", entryType := .model, regionId := "eu", sizeBytes := 4,
               ttlSec := 60, createdAt := 0 } :=
  put_keeps_others_iff _ 2 "b" .model 4 60 _ (by decide +kernel) (by decide +kernel)

/-- A fabric that is full, with the older entry under another key than the one put again. -/
def fullFabric : List FabricCall := [.put 0 "a" .model 6 60,.put 1 "b" .model 4 60]

theorem not_put_keeps_others :
    ¬ ∀ (localRegion : String) (maxSizeBytes warmingThreshold : ℤ) (onInvalidate : Bool)
      (calls : List FabricCall), (∀ c ∈ calls, c.Within maxSizeBytes) →
      ∀ (now : ℚ) (key : String) (entryType : CacheEntryType) (sizeBytes : ℤ) (ttlSec : ℚ)
        (old : CacheEntry),
      let f := run exec (init localRegion maxSizeBytes warmingThreshold onInvalidate) calls
      f.entries.get? key = some old → 0 ≤ sizeBytes →
      f.currentSize-old.sizeBytes+sizeBytes ≤ f.maxSizeBytes →
      ∀ other, other ≠ key → (f.entries.get? other).isSome →
        ((f.put now key entryType sizeBytes ttlSec).entries.get? other).isSome := by
  intro h
  have hkept := h "eu" 10 5 false fullFabric (by decide) 2 "b" .model 4 60
    { serial := 1, key := "b", entryType := .model, regionId := "eu", sizeBytes := 4,
      ttlSec := 60, createdAt := 1 } (by decide +kernel) (by decide) (by decide +kernel) "a"
    (by decide) (by decide +kernel)
  exact absurd hkept (by decide +kernel)

end Replace

end DistributedCacheFabric
end Arsonist.Replication
