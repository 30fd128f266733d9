import Mathlib.Data.List.MinMax
import Arsonist.Library.Json
import Arsonist.Library.Keyed
import Arsonist.Library.Runs

/-! Regional caches that tell each other which entries are no longer valid. An entry has a serial
number, which tells it from an entry that is stored under the same key later. -/
namespace Arsonist.Replication
open Arsonist.Library

inductive CacheEntryType where
  | model
  | tokenizer
  | embedding
  | inferenceOutput
  deriving DecidableEq

namespace CacheEntryType

def value : CacheEntryType → String
  | model => "model"
  | tokenizer => "tokenizer"
  | embedding => "embedding"
  | inferenceOutput => "inference_output"

instance : StrEnum CacheEntryType where
  all := [model,tokenizer,embedding,inferenceOutput]
  value := value
  mem_all a := by cases a <;> simp
  value_injective a b h := by revert h; cases a <;> cases b <;> simp [value]

end CacheEntryType

structure CacheEntry where
  serial : ℕ
  key : String
  entryType : CacheEntryType
  regionId : String
  sizeBytes : ℤ := 0
  ttlSec : ℚ := 3600
  createdAt : ℚ
  lastAccessed : ℚ := createdAt
  accessCount : ℕ := 0
  invalidated : Bool := false
  deriving DecidableEq

instance : Keyed CacheEntry String where
  key := CacheEntry.key

def CacheEntry.IsExpired (e : CacheEntry) (now : ℚ) : Prop := e.ttlSec < now-e.createdAt

instance (e : CacheEntry) (now : ℚ) : Decidable (e.IsExpired now) :=
  inferInstanceAs (Decidable (_ < _))

structure DistributedCacheFabric where
  localRegion : String
  maxSizeBytes : ℤ := 10*1024*1024*1024
  warmingThreshold : ℤ := 5
  onInvalidate : Bool := false
  entries : Table CacheEntry := Table.empty
  currentSize : ℤ := 0
  hitCount : ℕ := 0
  missCount : ℕ := 0
  evictionCount : ℕ := 0
  invalidationCount : ℕ := 0
  warmCandidates : List String := []
  made : ℕ := 0

namespace DistributedCacheFabric
variable (f : DistributedCacheFabric)

/-- Delete an entry, and its size with it. -/
def remove (e : CacheEntry) : DistributedCacheFabric :=
  { f with entries := f.entries.erase e.key, currentSize := f.currentSize-e.sizeBytes }

def evictLru : DistributedCacheFabric :=
  match f.entries.entries.argmin CacheEntry.lastAccessed with
  | none => f
  | some e => { f.remove e with evictionCount := f.evictionCount+1 }

/-- The loop of `put`: each turn evicts one of at most `turns` entries. -/
def makeRoom (sizeBytes : ℤ) : ℕ → DistributedCacheFabric → DistributedCacheFabric
  | 0, f => f
  | turns+1, f =>
    if f.maxSizeBytes < f.currentSize+sizeBytes ∧ f.entries.entries ≠ [] then
      makeRoom sizeBytes turns f.evictLru
    else f

def put (now : ℚ) (key : String) (entryType : CacheEntryType) (sizeBytes : ℤ) (ttlSec : ℚ) :
    DistributedCacheFabric :=
  let entry : CacheEntry := { serial := f.made, key := key, entryType := entryType,
                              regionId := f.localRegion, sizeBytes := sizeBytes, ttlSec := ttlSec,
                              createdAt := now }
  let f := makeRoom sizeBytes f.entries.entries.length f
  let old := ((f.entries.get? key).map CacheEntry.sizeBytes).getD 0
  { f with entries := f.entries.put entry, currentSize := f.currentSize-old+sizeBytes,
           made := f.made+1 }

/-- `get`, with the times that `is_expired` and `last_accessed` read. -/
def get (now accessed : ℚ) (key : String) : DistributedCacheFabric × Option CacheEntry :=
  match f.entries.get? key with
  | none => ({ f with missCount := f.missCount+1 },none)
  | some e =>
    if e.IsExpired now ∨ e.invalidated then
      ({ f.remove e with missCount := f.missCount+1 },none)
    else
      let e := { e with lastAccessed := accessed, accessCount := e.accessCount+1 }
      ({ f with entries := f.entries.put e, hitCount := f.hitCount+1,
                warmCandidates := if f.warmingThreshold ≤ e.accessCount then
                    f.warmCandidates.insert key
                  else f.warmCandidates },some e)

/-- The locked section of `invalidate`. -/
def invalidate (key : String) : DistributedCacheFabric × Bool :=
  match f.entries.get? key with
  | none => (f,false)
  | some e =>
    ({ f with entries := f.entries.put { e with invalidated := true },
              invalidationCount := f.invalidationCount+1 },true)

/-- The entries that `invalidate_by_type` marks. -/
def marked (entryType : CacheEntryType) : List CacheEntry :=
  f.entries.entries.filter fun e => e.entryType = entryType ∧ e.invalidated = false

/-- The locked section of `invalidate_by_type`. -/
def invalidateByType (entryType : CacheEntryType) : DistributedCacheFabric × ℕ :=
  ({ f with entries := (f.marked entryType).foldl
              (fun t e => t.put { e with invalidated := true }) f.entries,
            invalidationCount := f.invalidationCount+(f.marked entryType).length },
    (f.marked entryType).length)

def receiveInvalidation (key sourceRegion : String) : DistributedCacheFabric :=
  if sourceRegion = f.localRegion then f else (f.invalidate key).1

def cleanupExpired (now : ℚ) : DistributedCacheFabric × ℕ :=
  let expired := f.entries.entries.filter fun e => e.IsExpired now ∨ e.invalidated
  (expired.foldl (fun f e => { f.remove e with evictionCount := f.evictionCount+1 }) f,
    expired.length)

def getWarmCandidates : DistributedCacheFabric × List String :=
  ({ f with warmCandidates := [] },f.warmCandidates)

end DistributedCacheFabric

/-- One entry at two times: it is used and marked, and nothing else happens to it. -/
structure CacheEntry.Becomes (e e' : CacheEntry) : Prop where
  serial : e'.serial = e.serial
  key : e'.key = e.key
  entryType : e'.entryType = e.entryType
  ttlSec : e'.ttlSec = e.ttlSec
  createdAt : e'.createdAt = e.createdAt
  invalidated : e.invalidated → e'.invalidated

theorem CacheEntry.Becomes.refl (e : CacheEntry) : e.Becomes e := ⟨rfl,rfl,rfl,rfl,rfl,id⟩

theorem CacheEntry.Becomes.trans {e e' e'' : CacheEntry} (h : e.Becomes e')
    (h' : e'.Becomes e'') : e.Becomes e'' where
  serial := h'.serial.trans h.serial
  key := h'.key.trans h.key
  entryType := h'.entryType.trans h.entryType
  ttlSec := h'.ttlSec.trans h.ttlSec
  createdAt := h'.createdAt.trans h.createdAt
  invalidated := h'.invalidated ∘ h.invalidated

theorem CacheEntry.Becomes.isExpired {e e' : CacheEntry} (h : e.Becomes e') {t now : ℚ}
    (he : e.IsExpired t) (hnow : t ≤ now) : e'.IsExpired now := by
  rw [IsExpired, h.ttlSec, h.createdAt]
  exact he.trans_le (sub_le_sub_right hnow _)

namespace DistributedCacheFabric

/-- A fabric at two times: an entry of the later one is new or has been there. -/
structure Becomes (f f' : DistributedCacheFabric) : Prop where
  localRegion : f'.localRegion = f.localRegion
  onInvalidate : f'.onInvalidate = f.onInvalidate
  made : f.made ≤ f'.made
  entries : ∀ e' ∈ f'.entries.entries, f.made ≤ e'.serial ∧ e'.serial < f'.made ∨
    ∃ e ∈ f.entries.entries, e.Becomes e'

variable {f f' f'' : DistributedCacheFabric}

theorem Becomes.refl (f : DistributedCacheFabric) : f.Becomes f :=
  ⟨rfl,rfl,le_rfl,fun e he => Or.inr ⟨e,he,.refl e⟩⟩

theorem Becomes.trans (h : f.Becomes f') (h' : f'.Becomes f'') : f.Becomes f'' where
  localRegion := h'.localRegion.trans h.localRegion
  onInvalidate := h'.onInvalidate.trans h.onInvalidate
  made := h.made.trans h'.made
  entries e'' he'' := by
    obtain ⟨hlow,hhigh⟩ | ⟨e',he',hbecomes'⟩ := h'.entries e'' he''
    · exact Or.inl ⟨h.made.trans hlow,hhigh⟩
    · obtain ⟨hlow,hhigh⟩ | ⟨e,he,hbecomes⟩ := h.entries e' he'
      · rw [← hbecomes'.serial] at hlow hhigh
        exact Or.inl ⟨hlow,hhigh.trans_le h'.made⟩
      · exact Or.inr ⟨e,he,hbecomes.trans hbecomes'⟩

/-- Entries are left out, or marked and used. -/
theorem becomes_of_entries (hregion : f'.localRegion = f.localRegion)
    (hcallback : f'.onInvalidate = f.onInvalidate) (hmade : f'.made = f.made)
    (h : ∀ e' ∈ f'.entries.entries, ∃ e ∈ f.entries.entries, e.Becomes e') : f.Becomes f' :=
  ⟨hregion,hcallback,hmade.ge,fun e' he' => Or.inr (h e' he')⟩

theorem becomes_remove (f : DistributedCacheFabric) (e : CacheEntry) (evicted : ℕ) :
    f.Becomes { f.remove e with evictionCount := evicted } :=
  becomes_of_entries rfl rfl rfl fun e' he' => ⟨e',(Table.mem_erase.mp he').1,.refl e'⟩

theorem becomes_evictLru (f : DistributedCacheFabric) : f.Becomes f.evictLru := by
  rw [evictLru]
  split
  · exact .refl f
  · exact becomes_remove f _ _

theorem becomes_makeRoom (sizeBytes : ℤ) (turns : ℕ) (f : DistributedCacheFabric) :
    f.Becomes (makeRoom sizeBytes turns f) := by
  induction turns generalizing f with
  | zero => exact .refl f
  | succ turns ih =>
    rw [makeRoom]
    split_ifs
    · exact (becomes_evictLru f).trans (ih _)
    · exact .refl f

theorem made_makeRoom (sizeBytes : ℤ) (turns : ℕ) (f : DistributedCacheFabric) :
    (makeRoom sizeBytes turns f).made = f.made := by
  induction turns generalizing f with
  | zero => rfl
  | succ turns ih =>
    rw [makeRoom]
    split_ifs
    · rw [ih, evictLru]
      split <;> rfl
    · rfl

/-- The loop of `put` goes on until there is room or nothing is left. -/
theorem room_of_makeRoom (sizeBytes : ℤ) (f : DistributedCacheFabric) :
    let f' := makeRoom sizeBytes f.entries.entries.length f
    f'.currentSize+sizeBytes ≤ f'.maxSizeBytes ∨ f'.entries.entries = [] := by
  generalize hturns : f.entries.entries.length = turns
  induction turns generalizing f with
  | zero => exact Or.inr (List.length_eq_zero_iff.mp hturns)
  | succ turns ih =>
    rw [makeRoom]
    split_ifs with hfull
    · apply ih
      rw [evictLru]
      cases hmin : f.entries.entries.argmin CacheEntry.lastAccessed with
      | none => exact absurd (List.argmin_eq_none.mp hmin) hfull.2
      | some e =>
        have hget : f.entries.get? e.key = some e := Table.get?_of_mem (List.argmin_mem hmin)
        exact Nat.succ.inj ((Table.length_erase_of_some hget).trans hturns)
    · by_cases hnil : f.entries.entries = []
      · exact Or.inr hnil
      · exact Or.inl (not_lt.mp fun hlt => hfull ⟨hlt,hnil⟩)

theorem becomes_put (f : DistributedCacheFabric) (now : ℚ) (key : String)
    (entryType : CacheEntryType) (sizeBytes : ℤ) (ttlSec : ℚ) :
    f.Becomes (f.put now key entryType sizeBytes ttlSec) := by
  have hroom := becomes_makeRoom sizeBytes f.entries.entries.length f
  refine ⟨hroom.localRegion,hroom.onInvalidate,?_,fun e' he' => ?_⟩
  · change f.made ≤ (makeRoom sizeBytes f.entries.entries.length f).made+1
    rw [made_makeRoom]
    exact Nat.le_succ _
  · obtain rfl | ⟨he',-⟩ := Table.mem_put.mp he'
    · refine Or.inl ⟨le_rfl,?_⟩
      change f.made < (makeRoom sizeBytes f.entries.entries.length f).made+1
      rw [made_makeRoom]
      exact Nat.lt_succ_self _
    · refine (hroom.entries e' he').imp_left fun hnew => ?_
      rw [made_makeRoom] at hnew
      omega

/-- An entry is stored anew, used or marked. -/
theorem becomes_of_put {e e' : CacheEntry} (hregion : f'.localRegion = f.localRegion)
    (hcallback : f'.onInvalidate = f.onInvalidate) (hmade : f'.made = f.made)
    (hentries : f'.entries = f.entries.put e') (he : e ∈ f.entries.entries) (h : e.Becomes e') :
    f.Becomes f' := by
  refine becomes_of_entries hregion hcallback hmade fun e'' he'' => ?_
  rw [hentries] at he''
  obtain rfl | ⟨hold,-⟩ := Table.mem_put.mp he''
  · exact ⟨e,he,h⟩
  · exact ⟨e'',hold,.refl e''⟩

theorem becomes_get (f : DistributedCacheFabric) (now accessed : ℚ) (key : String) :
    f.Becomes (f.get now accessed key).1 := by
  rw [get]
  cases hget : f.entries.get? key with
  | none => exact becomes_of_entries rfl rfl rfl fun e he => ⟨e,he,.refl e⟩
  | some e =>
    dsimp only
    split_ifs
    · exact becomes_of_entries rfl rfl rfl fun e' he' => ⟨e',(Table.mem_erase.mp he').1,.refl e'⟩
    · exact becomes_of_put rfl rfl rfl rfl (Table.mem_of_get? hget) ⟨rfl,rfl,rfl,rfl,rfl,id⟩
    · exact becomes_of_put rfl rfl rfl rfl (Table.mem_of_get? hget) ⟨rfl,rfl,rfl,rfl,rfl,id⟩

theorem becomes_invalidate (f : DistributedCacheFabric) (key : String) :
    f.Becomes (f.invalidate key).1 := by
  rw [invalidate]
  cases hget : f.entries.get? key with
  | none => exact .refl f
  | some e =>
    exact becomes_of_put rfl rfl rfl rfl (Table.mem_of_get? hget) ⟨rfl,rfl,rfl,rfl,rfl,fun _ => rfl⟩

theorem becomes_invalidateByType (f : DistributedCacheFabric) (entryType : CacheEntryType) :
    f.Becomes (f.invalidateByType entryType).1 := by
  refine becomes_of_entries rfl rfl rfl fun e' he' => ?_
  have hmarks : ∀ (es : List CacheEntry) (t : Table CacheEntry),
      (∀ e ∈ es, e ∈ f.entries.entries) →
      (∀ e' ∈ t.entries, ∃ e ∈ f.entries.entries, e.Becomes e') →
      ∀ e' ∈ (es.foldl (fun t e => t.put { e with invalidated := true }) t).entries,
        ∃ e ∈ f.entries.entries, e.Becomes e' := by
    intro es
    induction es with
    | nil => exact fun t _ ht => ht
    | cons e es ih =>
      intro t hes ht
      obtain ⟨he,hes⟩ := List.forall_mem_cons.mp hes
      refine ih _ hes fun e' he' => ?_
      obtain rfl | ⟨hold,-⟩ := Table.mem_put.mp he'
      · exact ⟨e,he,rfl,rfl,rfl,rfl,rfl,fun _ => rfl⟩
      · exact ht e' hold
  exact hmarks _ f.entries (fun e he => List.mem_of_mem_filter he)
    (fun e he => ⟨e,he,.refl e⟩) e' he'

theorem becomes_cleanupExpired (f : DistributedCacheFabric) (now : ℚ) :
    f.Becomes (f.cleanupExpired now).1 := by
  rw [cleanupExpired]
  generalize f.entries.entries.filter _ = es
  induction es generalizing f with
  | nil => exact .refl f
  | cons e es ih => exact (becomes_remove f e _).trans (ih _)

theorem becomes_receiveInvalidation (f : DistributedCacheFabric) (key sourceRegion : String) :
    f.Becomes (f.receiveInvalidation key sourceRegion) := by
  rw [receiveInvalidation]
  split_ifs
  · exact .refl f
  · exact becomes_invalidate f key

/-- An entry that `get` returns is neither marked nor expired. -/
theorem get_eq_some {now accessed : ℚ} {key : String} {e' : CacheEntry}
    (h : (f.get now accessed key).2 = some e') :
    ∃ e ∈ f.entries.entries, e.key = key ∧ e.invalidated = false ∧ ¬ e.IsExpired now ∧
      e.Becomes e' := by
  rw [get] at h
  cases hget : f.entries.get? key with
  | none => rw [hget] at h; cases h
  | some e =>
    rw [hget] at h
    dsimp only at h
    split_ifs at h with hgone <;> cases h <;>
      exact ⟨e,Table.mem_of_get? hget,Table.key_of_get? hget,
        Bool.eq_false_of_not_eq_true fun hi => hgone (Or.inr hi),fun hx => hgone (Or.inl hx),
        ⟨rfl,rfl,rfl,rfl,rfl,id⟩⟩

theorem get_of_valid {now accessed : ℚ} {e : CacheEntry} (he : e ∈ f.entries.entries)
    (hvalid : e.invalidated = false) (hfresh : ¬ e.IsExpired now) :
    ∃ e', (f.get now accessed e.key).2 = some e' ∧ e.Becomes e' := by
  have hget : f.entries.get? e.key = some e := Table.get?_of_mem he
  refine ⟨{ e with lastAccessed := accessed, accessCount := e.accessCount+1 },?_,
    rfl,rfl,rfl,rfl,rfl,id⟩
  rw [get, hget]
  dsimp only
  rw [if_neg]
  rintro (hx | hi)
  · exact hfresh hx
  · rw [hvalid] at hi
    cases hi

/-- `invalidate` marks the entry of the key. -/
theorem invalidated_of_invalidate {key : String} {e : CacheEntry}
    (he : e ∈ (f.invalidate key).1.entries.entries) (hkey : e.key = key) : e.invalidated := by
  have hget : (f.invalidate key).1.entries.get? key = some e := by
    subst hkey
    exact Table.get?_of_mem he
  rw [invalidate] at hget
  cases hold : f.entries.get? key with
  | none =>
    rw [hold] at hget
    dsimp only at hget
    rw [hold] at hget
    cases hget
  | some e' =>
    rw [hold] at hget
    dsimp only at hget
    have hkey' : key = Keyed.key { e' with invalidated := true } := (Table.key_of_get? hold).symm
    rw [Table.get?_put, if_pos hkey', Option.some.injEq] at hget
    rw [← hget]

/-- `invalidate` leaves the entries of other keys as they are. -/
theorem mem_invalidate {key : String} {e : CacheEntry} (he : e ∈ f.entries.entries)
    (hkey : e.key ≠ key) : e ∈ (f.invalidate key).1.entries.entries := by
  rw [invalidate]
  cases hold : f.entries.get? key with
  | none => exact he
  | some e' =>
    have hold' : e'.key = key := Table.key_of_get? hold
    exact Table.mem_put.mpr (Or.inr ⟨he,fun hkey' => hkey (hkey'.trans hold')⟩)

end DistributedCacheFabric
end Arsonist.Replication
