import Arsonist.Replication.CacheReplication

/-! Two fabrics, each with the other one as the receiver of its callback. An invalidation by type
is sent as the key `type:…`, and the receiver takes every message for a key. -/
namespace Arsonist.Replication
open Arsonist.Library

inductive Side where
  | a
  | b
  deriving DecidableEq

def Side.other : Side → Side
  | a => b
  | b => a

/-- What an invalidation is about. -/
inductive Invalidation where
  | key (key : String)
  | type (entryType : CacheEntryType)

namespace Invalidation

/-- The first argument of the callback. -/
def message : Invalidation → String
  | key k => k
  | type t => "type:" ++ t.value

def Covers : Invalidation → CacheEntry → Prop
  | key k, e => e.key = k
  | type t, e => e.entryType = t

end Invalidation

/-- `invalidate` and `invalidate_by_type` up to the callback. -/
def DistributedCacheFabric.mark (f : DistributedCacheFabric) : Invalidation → DistributedCacheFabric
  | .key k => (f.invalidate k).1
  | .type t => (f.invalidateByType t).1

/-- At least one entry is invalidated. -/
def DistributedCacheFabric.Hits (f : DistributedCacheFabric) : Invalidation → Prop
  | .key k => (f.invalidate k).2 = true
  | .type t => 0 < (f.invalidateByType t).2

instance (f : DistributedCacheFabric) (what : Invalidation) : Decidable (f.Hits what) :=
  match what with
  | .key _ => inferInstanceAs (Decidable (_ = _))
  | .type _ => inferInstanceAs (Decidable (_ < _))

abbrev Peers := Side → DistributedCacheFabric

/-- A call to one of the fabrics, with the times that it reads. -/
inductive CacheOp where
  | put (i : Side) (now : ℚ) (key : String) (entryType : CacheEntryType) (sizeBytes : ℤ)
      (ttlSec : ℚ)
  | get (i : Side) (now accessed : ℚ) (key : String)
  | invalidate (i : Side) (what : Invalidation) (propagate : Bool)
  | cleanupExpired (i : Side) (now : ℚ)
  | getWarmCandidates (i : Side)

namespace Peers

def set (s : Peers) (i : Side) (f : DistributedCacheFabric) : Peers := Function.update s i f

/-- An invalidation, and what the callback does to the other fabric. -/
def invalidate (s : Peers) (i : Side) (what : Invalidation) (propagate : Bool) : Peers :=
  let marked := s.set i ((s i).mark what)
  if (s i).Hits what ∧ propagate ∧ (s i).onInvalidate then
    marked.set i.other ((s i.other).receiveInvalidation what.message (s i).localRegion)
  else marked

def exec (s : Peers) : CacheOp → Peers
  | .put i now key entryType sizeBytes ttlSec =>
    s.set i ((s i).put now key entryType sizeBytes ttlSec)
  | .get i now accessed key => s.set i ((s i).get now accessed key).1
  | .invalidate i what propagate => s.invalidate i what propagate
  | .cleanupExpired i now => s.set i ((s i).cleanupExpired now).1
  | .getWarmCandidates i => s.set i (s i).getWarmCandidates.1

/-- Two empty fabrics; the first one tells the second one, which may tell the first one. -/
def start (localRegion : Side → String) (maxSizeBytes warmingThreshold : Side → ℤ)
    (told : Bool) : Peers := fun i =>
  { localRegion := localRegion i, maxSizeBytes := maxSizeBytes i,
    warmingThreshold := warmingThreshold i,
    onInvalidate := match i with
      | .a => true
      | .b => told }

/-- After the first fabric has invalidated something, at a time from `t` on, the second one does
not return what it has stored before and what the invalidation is about. -/
def Effective (s : Peers) (what : Invalidation) (t : ℚ) : Prop :=
  ∀ (later : List CacheOp) (now accessed : ℚ) (key : String) (e : CacheEntry), t ≤ now →
    ((run exec (s.exec (.invalidate .a what true)) later .b).get now accessed key).2 = some e →
    e.serial < (s .b).made → ¬ what.Covers e

/-- An invalidation by type finds nothing to invalidate at the second fabric: its entries of the
type are already invalidated or expired, or are stored under the key that is the message. -/
def Heard (s : Peers) (t : ℚ) : Invalidation → Prop
  | .key _ => True
  | .type entryType => ∀ e ∈ (s .b).entries.entries, e.entryType = entryType →
      e.invalidated ∨ e.IsExpired t ∨ e.key = (Invalidation.type entryType).message

variable {s : Peers}

theorem becomes_set {i : Side} {f : DistributedCacheFabric} (h : (s i).Becomes f) (j : Side) :
    (s j).Becomes (s.set i f j) := by
  rw [set, Function.update_apply]
  split_ifs with hij
  · rw [hij]
    exact h
  · exact .refl _

theorem becomes_mark (f : DistributedCacheFabric) (what : Invalidation) :
    f.Becomes (f.mark what) := by
  cases what with
  | key k => exact f.becomes_invalidate k
  | type t => exact f.becomes_invalidateByType t

theorem becomes_exec (s : Peers) (op : CacheOp) (j : Side) : (s j).Becomes (s.exec op j) := by
  cases op with
  | put i now key entryType sizeBytes ttlSec =>
    exact becomes_set ((s i).becomes_put now key entryType sizeBytes ttlSec) j
  | get i now accessed key => exact becomes_set ((s i).becomes_get now accessed key) j
  | invalidate i what propagate =>
    have hmark := becomes_set (becomes_mark (s i) what)
    rw [exec, invalidate]
    split_ifs
    · have hother : s.set i ((s i).mark what) i.other = s i.other := by
        rw [set, Function.update_of_ne]
        cases i <;> decide
      refine (hmark j).trans (becomes_set ?_ j)
      rw [hother]
      exact (s i.other).becomes_receiveInvalidation _ _
    · exact hmark j
  | cleanupExpired i now => exact becomes_set ((s i).becomes_cleanupExpired now) j
  | getWarmCandidates i =>
    have hwarm : (s i).Becomes (s i).getWarmCandidates.1 :=
      DistributedCacheFabric.becomes_of_entries rfl rfl rfl fun e he => ⟨e,he,.refl e⟩
    exact becomes_set hwarm j

theorem becomes_run (s : Peers) (ops : List CacheOp) (j : Side) :
    (s j).Becomes (run exec s ops j) := by
  induction ops generalizing s with
  | nil => exact .refl _
  | cons op ops ih => exact (becomes_exec s op j).trans (ih _)

/-- What the message does to the second fabric. -/
theorem exec_invalidate_b {what : Invalidation} (hhit : (s .a).Hits what)
    (hwired : (s .a).onInvalidate) (hregion : (s .a).localRegion ≠ (s .b).localRegion) :
    s.exec (.invalidate .a what true) .b = ((s .b).invalidate what.message).1 := by
  rw [exec, invalidate, if_pos ⟨hhit,rfl,hwired⟩, set, Side.other, Function.update_self,
    DistributedCacheFabric.receiveInvalidation, if_neg hregion]

/-- Once the message has reached all entries that the invalidation is about, none of them is
returned again. -/
theorem effective_of_marked {what : Invalidation} {t : ℚ}
    (h : ∀ e ∈ (s.exec (.invalidate .a what true) .b).entries.entries, e.serial < (s .b).made →
      what.Covers e → e.invalidated ∨ e.IsExpired t) : s.Effective what t := by
  intro later now accessed key e' hnow hget hold hcovers
  obtain ⟨e,he,-,hvalid,hfresh,hbecomes⟩ := DistributedCacheFabric.get_eq_some hget
  rw [hbecomes.serial] at hold
  have hmade := (becomes_exec s (.invalidate .a what true) .b).made
  rcases (becomes_run (s.exec (.invalidate .a what true)) later .b).entries e he with
    ⟨hnew,-⟩ | ⟨first,hfirst,hbecomes'⟩
  · omega
  · rw [hbecomes'.serial] at hold
    have hcovers' : what.Covers first := by
      cases what with
      | key k => exact (hbecomes'.trans hbecomes).key.symm.trans hcovers
      | type entryType => exact (hbecomes'.trans hbecomes).entryType.symm.trans hcovers
    obtain hinvalid | hexpired := h first hfirst hold hcovers'
    · rw [hbecomes'.invalidated hinvalid] at hvalid
      cases hvalid
    · exact hfresh (hbecomes'.isExpired hexpired hnow)

theorem Heard.effective {what : Invalidation} {t : ℚ} (h : s.Heard t what)
    (hhit : (s .a).Hits what) (hwired : (s .a).onInvalidate)
    (hregion : (s .a).localRegion ≠ (s .b).localRegion) : s.Effective what t := by
  refine effective_of_marked fun e he hold hcovers => ?_
  rw [exec_invalidate_b hhit hwired hregion] at he
  cases what with
  | key k => exact Or.inl (DistributedCacheFabric.invalidated_of_invalidate he hcovers)
  | type entryType =>
    obtain ⟨hnew,-⟩ | ⟨first,hfirst,hbecomes⟩ := ((s .b).becomes_invalidate _).entries e he
    · omega
    · obtain hinv | hexp | hkey := h first hfirst (hbecomes.entryType.symm.trans hcovers)
      · exact Or.inl (hbecomes.invalidated hinv)
      · exact Or.inr (hbecomes.isExpired hexp le_rfl)
      · exact Or.inl (DistributedCacheFabric.invalidated_of_invalidate he
          (hbecomes.key.trans hkey))

/-- An entry of the type that the message does not reach can be returned at once. -/
theorem Effective.heard {what : Invalidation} {t : ℚ} (h : s.Effective what t)
    (hmade : ∀ e ∈ (s .b).entries.entries, e.serial < (s .b).made)
    (hhit : (s .a).Hits what) (hwired : (s .a).onInvalidate)
    (hregion : (s .a).localRegion ≠ (s .b).localRegion) : s.Heard t what := by
  cases what with
  | key k => trivial
  | type entryType =>
    intro e he htype
    by_contra hnot
    obtain ⟨hvalid,hnot⟩ := not_or.mp hnot
    obtain ⟨hfresh,hkey⟩ := not_or.mp hnot
    have hstays := DistributedCacheFabric.mem_invalidate he hkey
    rw [← exec_invalidate_b hhit hwired hregion] at hstays
    obtain ⟨e',hget,hbecomes⟩ : ∃ e', ((s.exec (.invalidate .a (.type entryType) true) .b).get t t
        e.key).2 = some e' ∧ e.Becomes e' :=
      DistributedCacheFabric.get_of_valid hstays (Bool.eq_false_of_not_eq_true hvalid) hfresh
    refine h [] t t e.key e' le_rfl hget ?_ (hbecomes.entryType.trans htype)
    rw [hbecomes.serial]
    exact hmade e he

/-- After any calls, an invalidation that hits something at the first fabric is effective at the
second one if it is of a key; if it is of a type, exactly when nothing is left to invalidate or
what is left is stored under the key that the message names. -/
theorem effective_iff_heard {localRegion : Side → String} {maxSizeBytes warmingThreshold : Side → ℤ}
    {told : Bool} (hregion : localRegion .a ≠ localRegion .b)
    (hs : Reachable exec (fun _ _ => True) (start localRegion maxSizeBytes warmingThreshold told) s)
    {what : Invalidation} (hhit : (s .a).Hits what) (t : ℚ) :
    s.Effective what t ↔ s.Heard t what := by
  obtain ⟨ops,-,rfl⟩ := hs
  have hrun := becomes_run (start localRegion maxSizeBytes warmingThreshold told) ops
  generalize run exec (start localRegion maxSizeBytes warmingThreshold told) ops = s at hrun hhit
  have hregions : (s .a).localRegion ≠ (s .b).localRegion := by
    rw [(hrun .a).localRegion, (hrun .b).localRegion]
    exact hregion
  have hmade : ∀ e ∈ (s .b).entries.entries, e.serial < (s .b).made := by
    intro e he
    obtain ⟨-,hlt⟩ | ⟨first,hfirst,-⟩ := (hrun .b).entries e he
    · exact hlt
    · cases hfirst
  exact ⟨fun h => h.heard hmade hhit (hrun .a).onInvalidate hregions,
    fun h => h.effective hhit (hrun .a).onInvalidate hregions⟩

/-- Two regions with a model each. -/
def twoRegions : Peers :=
  run exec (start (fun i => if i = .a then "us-east-1" else "eu-west-1")
      (fun _ => 10*1024*1024*1024) (fun _ => 5) false)
    [.put .a 0 "llama" .model 10 3600,.put .b 0 "mistral" .model 10 3600]

theorem effective_llama : twoRegions.Effective (.key "llama") 1 :=
  (effective_iff_heard (by decide) ⟨_,along_true _ _,rfl⟩ (by decide +kernel) 1).mpr trivial

theorem not_effective : ¬ ∀ (localRegion : Side → String) (maxSizeBytes warmingThreshold : Side → ℤ)
    (told : Bool) (s : Peers), localRegion .a ≠ localRegion .b →
    Reachable exec (fun _ _ => True) (start localRegion maxSizeBytes warmingThreshold told) s →
    ∀ (what : Invalidation) (t : ℚ), (s .a).Hits what → s.Effective what t := by
  intro h
  have heffective := h _ _ _ _ twoRegions (by decide) ⟨_,along_true _ _,rfl⟩ (.type .model) 1
    (by decide +kernel)
  have hstored : ((run exec (twoRegions.exec (.invalidate .a (.type .model) true)) [] .b).get 1 1
      "mistral").2 = some ⟨0,"mistral",.model,"eu-west-1",10,3600,0,1,1,false⟩ := by
    decide +kernel
  exact heffective [] 1 1 "mistral" _ le_rfl hstored (by decide +kernel) rfl

end Peers
end Arsonist.Replication
