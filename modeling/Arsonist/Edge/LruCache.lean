import Arsonist.Library.Eviction
import Arsonist.Library.Steps
import Arsonist.Library.Sums

/-! The inference cache of an edge node, with a limit on the number of its entries and one on their
sizes. A `put` first deletes the entry that it replaces, and then evicts while either limit would be
exceeded. -/
namespace Arsonist.Edge
open Arsonist.Library

structure EdgeCacheEntry (α : Type) where
  key : String
  value : α
  sizeBytes : ℤ := 0
  ttlSec : ℚ := 3600
  createdAt : ℚ
  accessedAt : ℚ := createdAt
  accessCount : ℕ := 0
  deriving DecidableEq

instance {α : Type} : Keyed (EdgeCacheEntry α) String where
  key := EdgeCacheEntry.key

structure EdgeCache (α : Type) where
  maxEntries : ℤ := 5000
  maxSizeBytes : ℤ := 1024*1024*1024
  entries : Table (EdgeCacheEntry α) := Table.empty
  currentSize : ℤ := 0
  hitCount : ℕ := 0
  missCount : ℕ := 0
  evictionCount : ℕ := 0

/-- A call to the cache, with the times it reads: `cleanup_expired` reads one for each entry. -/
inductive EdgeCacheCall (α : Type) where
  | put (now : ℚ) (key : String) (value : α) (sizeBytes : ℤ) (ttlSec : ℚ)
  | get (now accessed : ℚ) (key : String)
  | delete (key : String)
  | clear
  | cleanupExpired (now : String → ℚ)

variable {α : Type}

def EdgeCacheEntry.IsExpired (e : EdgeCacheEntry α) (now : ℚ) : Prop := e.ttlSec < now-e.createdAt

instance (e : EdgeCacheEntry α) (now : ℚ) : Decidable (e.IsExpired now) :=
  inferInstanceAs (Decidable (_ < _))

/-- The size that a call stores is not negative and within a limit. -/
def EdgeCacheCall.Within (maxSizeBytes : ℤ) : EdgeCacheCall α → Prop
  | .put _ _ _ sizeBytes _ => 0 ≤ sizeBytes ∧ sizeBytes ≤ maxSizeBytes
  | _ => True

instance (maxSizeBytes : ℤ) (c : EdgeCacheCall α) : Decidable (c.Within maxSizeBytes) :=
  match c with
  | .put _ _ _ _ _ => inferInstanceAs (Decidable (_ ∧ _))
  | .get _ _ _ => .isTrue trivial
  | .delete _ => .isTrue trivial
  | .clear => .isTrue trivial
  | .cleanupExpired _ => .isTrue trivial

namespace EdgeCache

/-- `__init__`. -/
abbrev init (maxEntries maxSizeBytes : ℤ) : EdgeCache α :=
  { maxEntries := maxEntries, maxSizeBytes := maxSizeBytes }

variable (c : EdgeCache α)

def removeEntry (key : String) : EdgeCache α :=
  match c.entries.get? key with
  | none => c
  | some e => { c with entries := c.entries.erase key, currentSize := c.currentSize-e.sizeBytes }

def evictLru : EdgeCache α :=
  match c.entries.entries.argmin EdgeCacheEntry.accessedAt with
  | none => c
  | some e => { c.removeEntry e.key with evictionCount := c.evictionCount+1 }

/-- The loop of `put`. `none` when it needs more than so many rounds. -/
def makeRoom (sizeBytes : ℤ) : ℕ → EdgeCache α → Option (EdgeCache α)
  | 0, _ => none
  | n+1, c =>
    if c.maxEntries ≤ c.entries.entries.length ∨
        (c.maxSizeBytes < c.currentSize+sizeBytes ∧ c.entries.entries ≠ []) then
      makeRoom sizeBytes n c.evictLru
    else some c

/-- `none` when the loop does not end. -/
def put (now : ℚ) (key : String) (value : α) (sizeBytes : ℤ) (ttlSec : ℚ) :
    Option (EdgeCache α) :=
  let c := if (c.entries.get? key).isSome then c.removeEntry key else c
  (makeRoom sizeBytes (c.entries.entries.length+1) c).map fun c =>
    { c with entries := c.entries.put { key := key, value := value, sizeBytes := sizeBytes,
                                        ttlSec := ttlSec, createdAt := now },
             currentSize := c.currentSize+sizeBytes }

/-- `get`, with the times that `is_expired` and `accessed_at` read. -/
def get (now accessed : ℚ) (key : String) : EdgeCache α × Option α :=
  match c.entries.get? key with
  | none => ({ c with missCount := c.missCount+1 },none)
  | some e =>
    if e.IsExpired now then ({ c.removeEntry key with missCount := c.missCount+1 },none)
    else
      let e := { e with accessedAt := accessed, accessCount := e.accessCount+1 }
      ({ c with entries := c.entries.put e, hitCount := c.hitCount+1 },some e.value)

def delete (key : String) : EdgeCache α × Bool :=
  if (c.entries.get? key).isSome then (c.removeEntry key,true) else (c,false)

def clear : EdgeCache α × ℕ :=
  ({ c with entries := Table.empty, currentSize := 0 },c.entries.entries.length)

def cleanupExpired (now : String → ℚ) : EdgeCache α × ℕ :=
  let expired := (c.entries.entries.filter fun e => e.IsExpired (now e.key)).map EdgeCacheEntry.key
  (expired.foldl removeEntry c,expired.length)

/-- `none` once a call has not returned. -/
def exec (c : Option (EdgeCache α)) (call : EdgeCacheCall α) : Option (EdgeCache α) :=
  c.bind fun c =>
    match call with
    | .put now key value sizeBytes ttlSec => c.put now key value sizeBytes ttlSec
    | .get now accessed key => some (c.get now accessed key).1
    | .delete key => some (c.delete key).1
    | .clear => some c.clear.1
    | .cleanupExpired now => some (c.cleanupExpired now).1

/-- The sizes of all entries together. -/
def stored : ℤ := c.entries.sum EdgeCacheEntry.sizeBytes

/-- The condition of the loop of `put`, of what is stored at the time. -/
def Full (sizeBytes : ℤ) (t : Table (EdgeCacheEntry α)) : Prop :=
  c.maxEntries ≤ t.entries.length ∨
    (c.maxSizeBytes < t.sum EdgeCacheEntry.sizeBytes+sizeBytes ∧ t.entries ≠ [])

/-- The counter is what is stored, and no size is negative. -/
abbrev Sized : Prop := c.entries.Counted EdgeCacheEntry.sizeBytes c.currentSize

/-- The counter is right and both limits are kept. -/
structure Bounded (maxEntries maxSizeBytes : ℤ) : Prop where
  sized : c.Sized
  maxEntries_eq : c.maxEntries = maxEntries
  maxSizeBytes_eq : c.maxSizeBytes = maxSizeBytes
  length_le : c.entries.entries.length ≤ maxEntries
  size_le : 0 ≤ maxSizeBytes → c.currentSize ≤ maxSizeBytes

/-- What a `put` evicts besides the entry that it replaces: the least recently used, and none of
them once both limits would hold. -/
structure PutEvicts (key : String) (sizeBytes : ℤ) (evicted : List (EdgeCacheEntry α))
    (c' : EdgeCache α) : Prop where
  stored : ∀ e ∈ evicted, e ∈ c.entries.entries ∧ e.key ≠ key
  kept : ∀ e, e.key ≠ key → (e ∈ c'.entries.entries ↔ e ∈ c.entries.entries ∧ e ∉ evicted)
  oldest : ∀ e ∈ evicted, ∀ a ∈ c'.entries.entries, a.key ≠ key → e.accessedAt ≤ a.accessedAt
  needed : ∀ p e q, evicted = p ++ e :: q →
    c.maxEntries < ((c.entries.erase key).without p).entries.length+1 ∨
      c.maxSizeBytes < ((c.entries.erase key).without p).sum EdgeCacheEntry.sizeBytes+sizeBytes

variable {c} {c' : EdgeCache α}

/-- Some entries are deleted, and their sizes with them. -/
structure Shrinks (c c' : EdgeCache α) : Prop where
  sized : c'.Sized
  length_le : c'.entries.entries.length ≤ c.entries.entries.length
  size_le : c'.currentSize ≤ c.currentSize
  maxEntries : c'.maxEntries = c.maxEntries
  maxSizeBytes : c'.maxSizeBytes = c.maxSizeBytes

theorem Shrinks.refl (h : c.Sized) : Shrinks c c := ⟨h,le_rfl,le_rfl,rfl,rfl⟩

theorem Shrinks.trans {c'' : EdgeCache α} (h : Shrinks c c') (h' : Shrinks c' c'') :
    Shrinks c c'' :=
  ⟨h'.sized,h'.length_le.trans h.length_le,h'.size_le.trans h.size_le,
    h'.maxEntries.trans h.maxEntries,h'.maxSizeBytes.trans h.maxSizeBytes⟩

theorem Shrinks.bounded {maxEntries maxSizeBytes : ℤ} (h : Shrinks c c')
    (hc : c.Bounded maxEntries maxSizeBytes) : c'.Bounded maxEntries maxSizeBytes where
  sized := h.sized
  maxEntries_eq := h.maxEntries.trans hc.maxEntries_eq
  maxSizeBytes_eq := h.maxSizeBytes.trans hc.maxSizeBytes_eq
  length_le := (Int.ofNat_le.mpr h.length_le).trans hc.length_le
  size_le hpos := h.size_le.trans (hc.size_le hpos)

theorem Shrinks.full_eq (h : Shrinks c c') (sizeBytes : ℤ) :
    c'.Full sizeBytes = c.Full sizeBytes := by
  funext t
  rw [Full, h.maxEntries, h.maxSizeBytes, Full]

theorem entries_removeEntry (c : EdgeCache α) (key : String) :
    (c.removeEntry key).entries = c.entries.erase key := by
  rw [removeEntry]
  cases hget : c.entries.get? key with
  | some e => rfl
  | none => exact (Table.erase_of_none hget).symm

theorem shrinks_removeEntry (h : c.Sized) (key : String) : Shrinks c (c.removeEntry key) := by
  rw [removeEntry]
  cases hget : c.entries.get? key with
  | none => exact .refl h
  | some e =>
    exact ⟨h.erase hget,List.length_filter_le _ _,
      sub_le_self _ (h.nonneg e (Table.mem_of_get? hget)),rfl,rfl⟩

/-- The loop of `put` ends after it has evicted some entries. -/
theorem evicts_makeRoom (sizeBytes : ℤ) {n : ℕ} (h : c.Sized) (hpos : 1 ≤ c.maxEntries)
    (hlength : c.entries.entries.length < n) :
    ∃ c' es, makeRoom sizeBytes n c = some c' ∧ Shrinks c c' ∧
      Table.Evicts EdgeCacheEntry.accessedAt (c.Full sizeBytes) c.entries es c'.entries := by
  induction n generalizing c with
  | zero => exact absurd hlength (Nat.not_lt_zero _)
  | succ n ih =>
    have hiff : (c.maxEntries ≤ c.entries.entries.length ∨
        (c.maxSizeBytes < c.currentSize+sizeBytes ∧ c.entries.entries ≠ [])) ↔
        c.Full sizeBytes c.entries := by rw [h.eq_sum]; rfl
    rw [makeRoom]
    by_cases hfull : c.Full sizeBytes c.entries
    · have hne : c.entries.entries ≠ [] := by
        intro hnil
        obtain hmany | hlarge := hfull
        · rw [hnil, List.length_nil] at hmany
          omega
        · exact hlarge.2 hnil
      rw [if_pos (hiff.mpr hfull), evictLru]
      cases hmin : c.entries.entries.argmin EdgeCacheEntry.accessedAt with
      | none => exact absurd (List.argmin_eq_none.mp hmin) hne
      | some e =>
        have hget : c.entries.get? e.key = some e := Table.get?_of_mem (List.argmin_mem hmin)
        have herase := Table.length_erase_of_some hget
        have hremove := shrinks_removeEntry h e.key
        have hentries := entries_removeEntry c e.key
        have hone : Shrinks c { c.removeEntry e.key with evictionCount := c.evictionCount+1 } :=
          ⟨hremove.sized,hremove.length_le,hremove.size_le,hremove.maxEntries,
            hremove.maxSizeBytes⟩
        obtain ⟨c',es,hloop,hshrinks,hevicts⟩ := ih hone.sized
          (hone.maxEntries ▸ hpos) (by dsimp only; rw [hentries]; omega)
        refine ⟨c',e :: es,hloop,hone.trans hshrinks,.evict hfull hmin ?_⟩
        rw [hone.full_eq] at hevicts
        exact hentries ▸ hevicts
    · rw [if_neg (hiff.not.mpr hfull)]
      exact ⟨c,[],rfl,.refl h,.done hfull⟩

theorem shrinks_get (h : c.Sized) (now accessed : ℚ) (key : String) :
    Shrinks c (c.get now accessed key).1 := by
  have hremove := shrinks_removeEntry h key
  rw [get]
  cases hget : c.entries.get? key with
  | none => exact ⟨h,le_rfl,le_rfl,rfl,rfl⟩
  | some e =>
    obtain rfl : e.key = key := Table.key_of_get? hget
    dsimp only
    split_ifs
    · exact ⟨hremove.sized,hremove.length_le,hremove.size_le,hremove.maxEntries,
        hremove.maxSizeBytes⟩
    · let e' := { e with accessedAt := accessed, accessCount := e.accessCount+1 }
      have hget' : c.entries.get? (Keyed.key e') = some e := hget
      have hlength := Table.length_put c.entries e'
      rw [hget', Option.isSome_some, if_pos rfl] at hlength
      exact ⟨Table.Counted.put_same h hget' rfl,hlength.le,le_rfl,rfl,rfl⟩

theorem shrinks_delete (h : c.Sized) (key : String) : Shrinks c (c.delete key).1 := by
  rw [delete]
  split_ifs
  · exact shrinks_removeEntry h key
  · exact .refl h

theorem shrinks_clear (h : c.Sized) : Shrinks c c.clear.1 :=
  ⟨Table.counted_empty,Nat.zero_le _,h.counter_nonneg,rfl,rfl⟩

theorem shrinks_removeAll (keys : List String) (h : c.Sized) :
    Shrinks c (keys.foldl removeEntry c) := by
  induction keys generalizing c with
  | nil => exact .refl h
  | cons key keys ih =>
    have hremove := shrinks_removeEntry h key
    exact hremove.trans (ih hremove.sized)

/-- An entry is stored under a new key where there is room for it. -/
theorem Bounded.add {maxEntries maxSizeBytes : ℤ} (h : c.Bounded maxEntries maxSizeBytes)
    {e : EdgeCacheEntry α} (hnone : c.entries.get? (Keyed.key e) = none) (hsize : 0 ≤ e.sizeBytes)
    (hlength : c.entries.entries.length < maxEntries)
    (hroom : c.currentSize+e.sizeBytes ≤ maxSizeBytes) :
    Bounded { c with entries := c.entries.put e, currentSize := c.currentSize+e.sizeBytes }
      maxEntries maxSizeBytes where
  sized := Table.Counted.put_new h.sized hnone hsize
  maxEntries_eq := h.maxEntries_eq
  maxSizeBytes_eq := h.maxSizeBytes_eq
  length_le := by
    have hput := Table.length_put c.entries e
    rw [hnone] at hput
    dsimp only
    rw [hput]
    exact Int.add_one_le_of_lt hlength
  size_le _ := hroom

/-- Where the loop ends there is room for an entry. -/
theorem Bounded.room {maxEntries maxSizeBytes sizeBytes : ℤ}
    (h : c.Bounded maxEntries maxSizeBytes) (hfull : ¬ c.Full sizeBytes c.entries)
    (hsize : sizeBytes ≤ maxSizeBytes) :
    c.entries.entries.length < maxEntries ∧ c.currentSize+sizeBytes ≤ maxSizeBytes := by
  rw [Full, h.maxEntries_eq, h.maxSizeBytes_eq, not_or, not_le, not_and_or, not_lt, not_not]
    at hfull
  refine ⟨hfull.1,?_⟩
  obtain hfits | hnil := hfull.2
  · rw [h.sized.eq_sum]
    exact hfits
  · rw [h.sized.eq_zero hnil, zero_add]
    exact hsize

/-- What the loop has evicted, once the entry that is replaced is gone. -/
theorem putEvicts_of_evicts {key : String} {sizeBytes : ℤ} {es : List (EdgeCacheEntry α)}
    {t : Table (EdgeCacheEntry α)} {new : EdgeCacheEntry α}
    (h : Table.Evicts EdgeCacheEntry.accessedAt (c.Full sizeBytes) (c.entries.erase key) es t)
    (hnew : new.key = key) (hentries : c'.entries = t.put new) :
    c.PutEvicts key sizeBytes es c' where
  stored e he := Table.mem_erase.mp (h.mem_of_evicted he)
  kept e hkey := by
    have herased : e ∈ (c.entries.erase key).entries ↔ e ∈ c.entries.entries :=
      Table.mem_erase.trans (and_iff_left hkey)
    rw [hentries, Table.mem_put, h.mem_left, herased]
    constructor
    · rintro (rfl | ⟨he,-⟩)
      · exact absurd hnew hkey
      · exact he
    · exact fun he => Or.inr ⟨he,fun hsame => hkey (hsame.trans hnew)⟩
  oldest e he a ha hkey := by
    refine h.used_le he ?_
    rw [hentries] at ha
    obtain rfl | ⟨ha,-⟩ := Table.mem_put.mp ha
    · exact absurd hnew hkey
    · exact ha
  needed p e q hes := (h.needed hes).imp Int.lt_add_one_iff.mpr And.left

/-- `put` returns, within both limits. -/
theorem put_evicts {maxEntries maxSizeBytes : ℤ} (h : c.Bounded maxEntries maxSizeBytes)
    (hpos : 1 ≤ maxEntries) (now : ℚ) (key : String) (value : α) {sizeBytes : ℤ}
    (hsize : 0 ≤ sizeBytes ∧ sizeBytes ≤ maxSizeBytes) (ttlSec : ℚ) :
    ∃ c' evicted, c.put now key value sizeBytes ttlSec = some c' ∧
      c'.Bounded maxEntries maxSizeBytes ∧ c.PutEvicts key sizeBytes evicted c' := by
  have hfirst : (if (c.entries.get? key).isSome then c.removeEntry key else c) =
      c.removeEntry key := by
    rw [removeEntry]
    cases c.entries.get? key <;> rfl
  have hremove := shrinks_removeEntry h.sized key
  obtain ⟨c',es,hloop,hshrinks,hevicts⟩ := evicts_makeRoom sizeBytes hremove.sized
    (by rw [hremove.maxEntries, h.maxEntries_eq]; exact hpos) (Nat.lt_succ_self _)
  have hbounded := (hremove.trans hshrinks).bounded h
  have hfull := hevicts.not_full
  rw [← hshrinks.full_eq] at hfull
  obtain ⟨hlength,hfits⟩ := hbounded.room hfull hsize.2
  rw [hremove.full_eq, entries_removeEntry] at hevicts
  have hnone : c'.entries.get? key = none := by
    rw [Table.get?_eq_none_iff, List.mem_map]
    rintro ⟨a,ha,hkey⟩
    exact (Table.mem_erase.mp (hevicts.mem_left.mp ha).1).2 hkey
  rw [put, hfirst, hloop]
  exact ⟨_,es,rfl,hbounded.add hnone hsize.1 hlength hfits,
    putEvicts_of_evicts hevicts rfl rfl⟩

/-- An entry that fits once the one it replaces is gone drives out no other. -/
theorem PutEvicts.eq_nil_of_fits {maxEntries maxSizeBytes : ℤ} {key : String} {sizeBytes : ℤ}
    {evicted : List (EdgeCacheEntry α)} (h : c.PutEvicts key sizeBytes evicted c')
    (hc : c.Bounded maxEntries maxSizeBytes) {old : EdgeCacheEntry α}
    (hold : c.entries.get? key = some old)
    (hfits : c.currentSize-old.sizeBytes+sizeBytes ≤ maxSizeBytes) : evicted = [] := by
  cases evicted with
  | nil => rfl
  | cons e q =>
    have hlength := Table.length_erase_of_some hold
    have hsize := Table.sum_erase c.entries key EdgeCacheEntry.sizeBytes
    rw [hold, Option.elim_some, ← hc.sized.eq_sum] at hsize
    have hmany := hc.length_le
    have hneeded := h.needed [] e q rfl
    rw [Table.without, List.foldl_nil, hc.maxEntries_eq, hc.maxSizeBytes_eq, hsize] at hneeded
    omega

/-- What every call keeps. -/
theorem bounded_exec {maxEntries maxSizeBytes : ℤ} (h : c.Bounded maxEntries maxSizeBytes)
    (hpos : 1 ≤ maxEntries) {call : EdgeCacheCall α} (hcall : call.Within maxSizeBytes) :
    ∃ c', exec (some c) call = some c' ∧ c'.Bounded maxEntries maxSizeBytes := by
  cases call with
  | put now key value sizeBytes ttlSec =>
    obtain ⟨c',-,hput,hbounded,-⟩ := put_evicts h hpos now key value hcall ttlSec
    exact ⟨c',hput,hbounded⟩
  | get now accessed key => exact ⟨_,rfl,(shrinks_get h.sized now accessed key).bounded h⟩
  | delete key => exact ⟨_,rfl,(shrinks_delete h.sized key).bounded h⟩
  | clear => exact ⟨_,rfl,(shrinks_clear h.sized).bounded h⟩
  | cleanupExpired now => exact ⟨_,rfl,(shrinks_removeAll _ h.sized).bounded h⟩

section New
variable (maxEntries maxSizeBytes : ℤ)

theorem bounded_init (hpos : 1 ≤ maxEntries) :
    (init maxEntries maxSizeBytes : EdgeCache α).Bounded maxEntries maxSizeBytes where
  sized := Table.counted_empty
  maxEntries_eq := rfl
  maxSizeBytes_eq := rfl
  length_le := zero_le_one.trans hpos
  size_le := id

theorem bounded_run (hpos : 1 ≤ maxEntries) (calls : List (EdgeCacheCall α))
    (h : ∀ call ∈ calls, call.Within maxSizeBytes) :
    ∃ c, run exec (some (init maxEntries maxSizeBytes)) calls = some c ∧
      c.Bounded maxEntries maxSizeBytes := by
  have hstep : ∀ (s : Option (EdgeCache α)) (call : EdgeCacheCall α), call.Within maxSizeBytes →
      (∃ c, s = some c ∧ c.Bounded maxEntries maxSizeBytes) →
      ∃ c, exec s call = some c ∧ c.Bounded maxEntries maxSizeBytes := by
    rintro _ call hcall ⟨c,rfl,hc⟩
    exact bounded_exec hc hpos hcall
  exact run_invariant hstep (along_of_forall h _)
    ⟨_,rfl,bounded_init maxEntries maxSizeBytes hpos⟩

/-- After any calls the cache keeps to both limits, and its next `put` ends and evicts, of the other
entries, the least recently used and no more than it has to. -/
theorem bounded_lru (hpos : 1 ≤ maxEntries) (calls : List (EdgeCacheCall α))
    (h : ∀ call ∈ calls, call.Within maxSizeBytes) :
    ∃ c, run exec (some (init maxEntries maxSizeBytes)) calls = some c ∧
      c.entries.entries.length ≤ maxEntries ∧ c.currentSize = c.stored ∧
      (0 ≤ maxSizeBytes → c.currentSize ≤ maxSizeBytes) ∧
      ∀ (now : ℚ) (key : String) (value : α) (sizeBytes : ℤ) (ttlSec : ℚ),
        0 ≤ sizeBytes ∧ sizeBytes ≤ maxSizeBytes →
        ∃ c' evicted, c.put now key value sizeBytes ttlSec = some c' ∧
          c.PutEvicts key sizeBytes evicted c' := by
  obtain ⟨c,hrun,hc⟩ := bounded_run maxEntries maxSizeBytes hpos calls h
  refine ⟨c,hrun,hc.length_le,hc.sized.eq_sum,hc.size_le,fun now key value sizeBytes ttlSec hsize => ?_⟩
  obtain ⟨c',evicted,hput,-,hevicts⟩ := put_evicts hc hpos now key value hsize ttlSec
  exact ⟨c',evicted,hput,hevicts⟩

end New

/-- Two entries are allowed, of 10 bytes together: the second `put` of `"a"` replaces the first, a
`get` makes `"a"` the later one, and `"c"` then drives out `"b"`. -/
def twoEntries : List (EdgeCacheCall ℕ) :=
  [.put 0 "a" 1 6 60,.put 1 "b" 2 4 60,.put 2 "a" 3 6 60,.get 3 3 "a",.put 4 "c" 5 4 60,
    .get 70 70 "a",.cleanupExpired fun _ => 80,.put 90 "d" 6 10 60]

theorem bounded_twoEntries :
    ∃ c : EdgeCache ℕ, run exec (some (init 2 10)) twoEntries = some c ∧
      c.entries.entries.length ≤ (2 : ℤ) ∧ c.currentSize = c.stored ∧
      (0 ≤ (10 : ℤ) → c.currentSize ≤ 10) ∧
      ∀ (now : ℚ) (key : String) (value : ℕ) (sizeBytes : ℤ) (ttlSec : ℚ),
        0 ≤ sizeBytes ∧ sizeBytes ≤ 10 →
        ∃ c' evicted, c.put now key value sizeBytes ttlSec = some c' ∧
          c.PutEvicts key sizeBytes evicted c' :=
  bounded_lru 2 10 (by decide) twoEntries (by decide)

end EdgeCache
end Arsonist.Edge
