import Arsonist.Edge.EdgeRuntime
import Arsonist.Library.Steps

/-! The cache of an edge runtime: what a request finds is what was stored last under its key, in
whichever tier it is, except that an empty object is taken for nothing. -/
namespace Arsonist.Edge
open Arsonist.Library
namespace EdgeRuntime

/-- The object stored last under a key, after one more step. -/
def latest (key : String) (stored : Option Json.Document) : EdgeEvent → Option Json.Document
  | .storeResult _ requestKey result => if requestKey = key then some result else stored
  | _ => stored

/-- The object that a run stored last under a key. -/
def lastStored (key : String) (es : List EdgeEvent) : Option Json.Document :=
  es.foldl (latest key) none

/-- Both tiers agree with what was stored under a key: the table has it, and so has the map if it
has anything. -/
structure Holds (key : String) (stored : Option Json.Document) (s : EdgeRuntime) : Prop where
  memory : ∀ entry, s.localCache.get? key = some entry →
    stored.map (fun o => Json.obj o.1) = some entry.data
  table : (s.edgeCache.get? key).map (fun row => Json.decode row.payload) =
    stored.map fun o => some (Json.obj o.1)

variable {key : String} {stored : Option Json.Document} {s : EdgeRuntime}

theorem Holds.of_eq (h : s.Holds key stored) {s' : EdgeRuntime}
    (hmemory : s'.localCache = s.localCache) (htable : s'.edgeCache = s.edgeCache) :
    s'.Holds key stored := by
  refine ⟨?_,?_⟩
  · rw [hmemory]
    exact h.memory
  · rw [htable]
    exact h.table

/-- Eviction only takes something away. -/
theorem get?_of_evict {maxEntries : ℕ} {cache : Table CacheEntry} {entry : CacheEntry}
    (h : (evict maxEntries cache).get? key = some entry) : cache.get? key = some entry := by
  unfold evict at h
  split_ifs at h
  · split at h
    · rw [Table.get?_erase] at h
      split_ifs at h
      exact h
    · exact h
  · exact h

theorem Holds.putCache (h : s.Holds key stored) (now : ℚ) (requestKey : String)
    (result : Json.Document) :
    (s.putCache now requestKey (.obj result.1)).Holds key
      (if requestKey = key then some result else stored) := by
  refine ⟨fun entry hentry => ?_,?_⟩
  · have hput := get?_of_evict hentry
    rw [Table.get?_put, CacheEntry.key_eq] at hput
    by_cases hkey : requestKey = key
    · rw [if_pos hkey.symm] at hput
      obtain rfl := Option.some.inj hput
      rw [if_pos hkey]
      rfl
    · rw [if_neg (Ne.symm hkey)] at hput
      rw [if_neg hkey]
      exact h.memory entry hput
  · change ((s.edgeCache.replace _).get? key).map _ = _
    rw [Table.get?_replace, CacheRow.key_eq]
    by_cases hkey : requestKey = key
    · rw [if_pos hkey.symm, if_pos hkey, Option.map_some, Option.map_some,
        Json.decode_encode result.2]
    · rw [if_neg (Ne.symm hkey), if_neg hkey]
      exact h.table

/-- A lookup finds what was stored under its key. -/
theorem Holds.getCache_snd (h : s.Holds key stored) (now : ℚ) :
    (s.getCache now key).2 = .ok (stored.map fun o => Json.obj o.1) := by
  unfold getCache
  cases hmemory : s.localCache.get? key with
  | some entry => exact congrArg Except.ok (h.memory entry hmemory).symm
  | none =>
    have htable := h.table
    cases hrow : s.edgeCache.get? key with
    | none =>
      rw [hrow] at htable
      cases stored with
      | none => rfl
      | some o => cases htable
    | some row =>
      rw [hrow] at htable
      cases stored with
      | none => cases htable
      | some o =>
        have hdecode : Json.decode row.payload = some (Json.obj o.1) := Option.some.inj htable
        dsimp only
        rw [hdecode]
        rfl

/-- A lookup under any key leaves the tiers in agreement. -/
theorem Holds.getCache (h : s.Holds key stored) (now : ℚ) (requestKey : String) :
    (s.getCache now requestKey).1.Holds key stored := by
  unfold EdgeRuntime.getCache
  cases hmemory : s.localCache.get? requestKey with
  | some entry =>
    refine ⟨fun entry' hentry' => ?_,h.table⟩
    rw [Table.get?_put, CacheEntry.key_eq] at hentry'
    split_ifs at hentry' with hkey
    · obtain rfl := Option.some.inj hentry'
      have hrequest : requestKey = key := (Table.key_of_get? hmemory).symm.trans hkey.symm
      exact h.memory entry (hrequest ▸ hmemory)
    · exact h.memory entry' hentry'
  | none =>
    cases hrow : s.edgeCache.get? requestKey with
    | none => exact h
    | some row =>
      dsimp only
      cases hdata : Json.decode row.payload with
      | none => exact h
      | some data =>
        refine ⟨fun entry hentry => ?_,?_⟩
        · rw [Table.get?_put, CacheEntry.key_eq] at hentry
          split_ifs at hentry with hkey
          · obtain rfl := Option.some.inj hentry
            have htable := h.table
            rw [hkey, hrow, Option.map_some, hdata] at htable
            cases stored with
            | none => cases htable
            | some o => exact Option.some.inj htable.symm
          · exact h.memory entry hentry
        · dsimp only
          rw [Table.get?_modify s.edgeCache requestKey (CacheRow.accessed now) fun _ => rfl]
          split_ifs with hkey
          · rw [Option.map_map, ← hkey]
            exact h.table
          · exact h.table

theorem Holds.handleRequest (h : s.Holds key stored) (now : ℚ) (requestKey : String) :
    (s.handleRequest now requestKey).1.Holds key stored := by
  have hcount : ({ s with requestsServed := s.requestsServed+1 } : EdgeRuntime).Holds key stored :=
    h.of_eq rfl rfl
  have hnext := hcount.getCache now requestKey
  unfold EdgeRuntime.handleRequest
  dsimp only
  split
  · exact hnext
  · split_ifs
    · exact hnext.of_eq rfl rfl
    · exact hnext.of_eq rfl rfl
    · exact hnext.of_eq rfl rfl

theorem truthy_obj_iff (o : Json.Object) : (Json.obj o).truthy = true ↔ o ≠ [] := by
  cases o with
  | nil => decide
  | cons m o => exact iff_of_true rfl (List.cons_ne_nil m o)

/-- A request gets what was stored under its key, unless that is the empty object. -/
theorem Holds.handleRequest_snd (h : s.Holds key stored) (now : ℚ) :
    (s.handleRequest now key).2 =
      .ok ((stored.filter fun o => o.1 ≠ []).map fun o => Json.obj o.1) := by
  have hcount : ({ s with requestsServed := s.requestsServed+1 } : EdgeRuntime).Holds key stored :=
    h.of_eq rfl rfl
  have hfound := hcount.getCache_snd now
  unfold EdgeRuntime.handleRequest
  dsimp only
  rw [hfound]
  cases stored with
  | none => rfl
  | some o =>
    dsimp only [Option.map_some, Option.any_some]
    by_cases hempty : o.1 = []
    · have hnone : (some o).filter (fun o => o.1 ≠ []) = none := by simp [hempty]
      rw [if_neg fun htrue => (truthy_obj_iff o.1).mp htrue hempty, hnone]
      rfl
    · have hsome : (some o).filter (fun o => o.1 ≠ []) = some o := by simp [hempty]
      rw [if_pos ((truthy_obj_iff o.1).mpr hempty), hsome]
      rfl

theorem setConnected_tiers (s : EdgeRuntime) (connected : Bool) :
    (s.setConnected connected).localCache = s.localCache ∧
      (s.setConnected connected).edgeCache = s.edgeCache := by
  unfold setConnected
  split_ifs <;> exact ⟨rfl,rfl⟩

theorem flushOutbox_tiers (s : EdgeRuntime) (raises : Bool) :
    (s.flushOutbox raises).1.localCache = s.localCache ∧
      (s.flushOutbox raises).1.edgeCache = s.edgeCache := by
  unfold flushOutbox
  dsimp only
  by_cases hempty : s.batch.isEmpty = true
  · rw [if_pos hempty]
    exact ⟨rfl,rfl⟩
  · rw [if_neg hempty]
    split
    · exact ⟨rfl,rfl⟩
    · split_ifs <;> exact ⟨rfl,rfl⟩

theorem Holds.exec (h : s.Holds key stored) (e : EdgeEvent) :
    (s.exec e).Holds key (latest key stored e) := by
  cases e with
  | storeResult now requestKey result => exact (h.putCache now requestKey result).of_eq rfl rfl
  | handleRequest now requestKey => exact h.handleRequest now requestKey
  | setConnected connected =>
    obtain ⟨hmemory,htable⟩ := setConnected_tiers s connected
    exact h.of_eq hmemory htable
  | flushOutbox raises =>
    obtain ⟨hmemory,htable⟩ := flushOutbox_tiers s raises
    exact h.of_eq hmemory htable

theorem Holds.run (h : s.Holds key stored) (es : List EdgeEvent) :
    (run EdgeRuntime.exec s es).Holds key (es.foldl (latest key) stored) := by
  induction es generalizing s stored with
  | nil => exact h
  | cons e es ih => exact ih (h.exec e)

/-- A request after any run gets the object stored last under its key, or nothing where there is
none, exactly when that object is not empty. -/
theorem remembers_iff (nodeId regionId : String) (cacheMaxEntries : ℕ) (onSync : Bool)
    (es : List EdgeEvent) (now : ℚ) (key : String) :
    ((Library.run EdgeRuntime.exec { nodeId, regionId, cacheMaxEntries, onSync } es).handleRequest
        now key).2 = .ok ((lastStored key es).map fun o => Json.obj o.1) ↔
      ∀ o, lastStored key es = some o → o.1 ≠ [] := by
  have hinit : ({ nodeId, regionId, cacheMaxEntries, onSync } : EdgeRuntime).Holds key none :=
    ⟨nofun,rfl⟩
  rw [(hinit.run es).handleRequest_snd now]
  change Except.ok (((lastStored key es).filter _).map _) = _ ↔ _
  cases lastStored key es with
  | none => exact iff_of_true rfl nofun
  | some o =>
    rw [Option.filter_some]
    by_cases hempty : o.1 = []
    · rw [if_neg (by simpa using hempty)]
      exact iff_of_false nofun fun h => h o rfl hempty
    · rw [if_pos (by simpa using hempty)]
      refine iff_of_true rfl fun o' he => ?_
      obtain rfl := Option.some.inj he
      exact hempty

/-- An empty object that was stored is not found. -/
theorem not_remembers : ¬∀ (cacheMaxEntries : ℕ) (es : List EdgeEvent) (now : ℚ) (key : String),
    1 ≤ cacheMaxEntries →
    ((Library.run EdgeRuntime.exec
        { nodeId := "n", regionId := "r", cacheMaxEntries } es).handleRequest now key).2 =
      .ok ((lastStored key es).map fun o => Json.obj o.1) := by
  intro h
  have hempty := h 1 [.storeResult ⟨0,by decide +kernel⟩ "k" ⟨[],rfl⟩] 0 "k" le_rfl
  have hinit : ({ nodeId := "n", regionId := "r", cacheMaxEntries := 1 } : EdgeRuntime).Holds
      "k" none := ⟨nofun,rfl⟩
  rw [(hinit.run _).handleRequest_snd 0] at hempty
  cases hempty

end EdgeRuntime
end Arsonist.Edge

/-! How much an edge runtime keeps in memory. A result that is stored drives out another one when
there are too many; a result that is read back from the table does not. -/
namespace Arsonist.Edge
open Arsonist.Library
namespace EdgeRuntime

/-- A lookup that does not find its key in memory and reads it back from the table. -/
def ReadsBack (s : EdgeRuntime) (key : String) : Prop :=
  s.localCache.get? key = none ∧
    ∃ row data, s.edgeCache.get? key = some row ∧ Json.decode row.payload = some data

def Reloads (s : EdgeRuntime) : EdgeEvent → Prop
  | .handleRequest _ requestKey => s.ReadsBack requestKey
  | _ => False

/-- The bound on the map in memory. -/
def Bounded (s : EdgeRuntime) : Prop := s.localCache.entries.length ≤ s.cacheMaxEntries

variable {s : EdgeRuntime}

theorem length_evict (maxEntries : ℕ) {cache : Table CacheEntry}
    (h : cache.entries.length ≤ maxEntries+1) :
    (evict maxEntries cache).entries.length ≤ maxEntries := by
  rw [evict]
  by_cases hfull : maxEntries < cache.entries.length
  · rw [if_pos hfull]
    cases hmin : cache.entries.argmin CacheEntry.accessedAt with
    | none =>
      rw [List.argmin_eq_none.mp hmin] at hfull
      exact absurd hfull (Nat.not_lt_zero _)
    | some oldest =>
      have hget : cache.get? oldest.key = some oldest := Table.get?_of_mem (List.argmin_mem hmin)
      have herase := Table.length_erase_of_some hget
      dsimp only
      omega
  · rw [if_neg hfull]
    exact Nat.le_of_not_lt hfull

theorem bounded_putCache (h : s.Bounded) (now : ℚ) (key : String) (data : Json) :
    (s.putCache now key data).Bounded := by
  refine length_evict s.cacheMaxEntries ?_
  rw [Table.length_put]
  split_ifs
  · exact h.trans (Nat.le_succ _)
  · exact Nat.succ_le_succ h

theorem cacheMaxEntries_getCache (s : EdgeRuntime) (now : ℚ) (key : String) :
    (s.getCache now key).1.cacheMaxEntries = s.cacheMaxEntries := by
  unfold getCache
  split
  · rfl
  · split
    · rfl
    · split
      · rfl
      · rfl

/-- Reading back adds an entry. -/
theorem length_getCache (h : s.ReadsBack key) (now : ℚ) :
    (s.getCache now key).1.localCache.entries.length = s.localCache.entries.length+1 := by
  obtain ⟨hmemory,row,data,hrow,hdata⟩ := h
  have hput := Table.length_put s.localCache ⟨key,data,now,1⟩
  rw [CacheEntry.key_eq, hmemory] at hput
  rw [getCache, hmemory]
  dsimp only
  rw [hrow]
  dsimp only
  rw [hdata]
  exact hput

/-- A lookup that does not read back adds none. -/
theorem length_getCache_of_not (h : ¬ s.ReadsBack key) (now : ℚ) :
    (s.getCache now key).1.localCache.entries.length = s.localCache.entries.length := by
  rw [getCache]
  cases hmemory : s.localCache.get? key with
  | some entry =>
    obtain rfl : entry.key = key := Table.key_of_get? hmemory
    have hput := Table.length_put s.localCache
      { entry with accessedAt := now, accessCount := entry.accessCount+1 }
    rw [CacheEntry.key_eq, hmemory] at hput
    exact hput
  | none =>
    cases hrow : s.edgeCache.get? key with
    | none => rfl
    | some row =>
      dsimp only
      cases hdata : Json.decode row.payload with
      | none => rfl
      | some data => exact absurd ⟨hmemory,row,data,hrow,hdata⟩ h

/-- Besides its lookup a request only counts. -/
theorem handleRequest_memory (s : EdgeRuntime) (now : ℚ) (key : String) :
    (s.handleRequest now key).1.localCache =
        ({ s with requestsServed := s.requestsServed+1 }.getCache now key).1.localCache ∧
      (s.handleRequest now key).1.cacheMaxEntries = s.cacheMaxEntries := by
  have hmax := cacheMaxEntries_getCache { s with requestsServed := s.requestsServed+1 } now key
  unfold handleRequest
  dsimp only
  split
  · exact ⟨rfl,hmax⟩
  · split_ifs <;> exact ⟨rfl,hmax⟩

theorem length_exec_of_reloads {e : EdgeEvent} (h : s.Reloads e) :
    (s.exec e).localCache.entries.length = s.localCache.entries.length+1 ∧
      (s.exec e).cacheMaxEntries = s.cacheMaxEntries := by
  cases e with
  | handleRequest now requestKey =>
    obtain ⟨hmemory,hmax⟩ := handleRequest_memory s now requestKey
    refine ⟨?_,hmax⟩
    change (s.handleRequest now requestKey).1.localCache.entries.length = _
    rw [hmemory]
    exact length_getCache (s := { s with requestsServed := s.requestsServed+1 }) h now
  | storeResult now requestKey result => exact h.elim
  | setConnected connected => exact h.elim
  | flushOutbox raises => exact h.elim

theorem cacheMaxEntries_setConnected (s : EdgeRuntime) (connected : Bool) :
    (s.setConnected connected).cacheMaxEntries = s.cacheMaxEntries := by
  unfold setConnected
  split_ifs <;> rfl

theorem cacheMaxEntries_flushOutbox (s : EdgeRuntime) (raises : Bool) :
    (s.flushOutbox raises).1.cacheMaxEntries = s.cacheMaxEntries := by
  unfold flushOutbox
  dsimp only
  by_cases hempty : s.batch.isEmpty = true
  · rw [if_pos hempty]
  · rw [if_neg hempty]
    split
    · rfl
    · split_ifs <;> rfl

theorem Bounded.of_eq (h : s.Bounded) {s' : EdgeRuntime}
    (hlength : s'.localCache.entries.length = s.localCache.entries.length)
    (hmax : s'.cacheMaxEntries = s.cacheMaxEntries) : s'.Bounded := by
  rw [Bounded, hlength, hmax]
  exact h

theorem Bounded.exec {e : EdgeEvent} (hs : s.Bounded) (h : ¬ s.Reloads e) : (s.exec e).Bounded := by
  cases e with
  | storeResult now requestKey result => exact bounded_putCache hs now requestKey (.obj result.1)
  | handleRequest now requestKey =>
    obtain ⟨hmemory,hmax⟩ := handleRequest_memory s now requestKey
    refine hs.of_eq ((congrArg (fun t => t.entries.length) hmemory).trans ?_) hmax
    exact length_getCache_of_not (s := { s with requestsServed := s.requestsServed+1 }) h now
  | setConnected connected =>
    exact hs.of_eq (congrArg (fun t => t.entries.length) (setConnected_tiers s connected).1)
      (cacheMaxEntries_setConnected s connected)
  | flushOutbox raises =>
    exact hs.of_eq (congrArg (fun t => t.entries.length) (flushOutbox_tiers s raises).1)
      (cacheMaxEntries_flushOutbox s raises)

/-- A step keeps to the bound exactly if it does not read back into a full memory. -/
theorem Bounded.exec_iff (hs : s.Bounded) (e : EdgeEvent) :
    (s.exec e).Bounded ↔ (s.Reloads e → s.localCache.entries.length < s.cacheMaxEntries) := by
  by_cases h : s.Reloads e
  · obtain ⟨hlength,hmax⟩ := length_exec_of_reloads h
    rw [Bounded, hlength, hmax]
    exact ⟨fun hroom _ => hroom,fun hroom => hroom h⟩
  · exact iff_of_true (hs.exec h) fun hreload => absurd hreload h

/-- Memory stays within its bound, for whatever a database holds at the start, exactly if no
request reads a result back while memory is full. -/
theorem memory_bounded_iff (nodeId regionId : String) (cacheMaxEntries : ℕ) (onSync : Bool)
    (edgeCache : Table CacheRow) (edgeOutbox : List OutboxRow) (es : List EdgeEvent) :
    (∀ p q, es = p ++ q → (run EdgeRuntime.exec
        { nodeId, regionId, cacheMaxEntries, onSync, edgeCache, edgeOutbox } p).Bounded) ↔
      Along EdgeRuntime.exec
        (fun s e => s.Reloads e → s.localCache.entries.length < s.cacheMaxEntries)
        { nodeId, regionId, cacheMaxEntries, onSync, edgeCache, edgeOutbox } es := by
  have hinit : ({ nodeId, regionId, cacheMaxEntries, onSync, edgeCache, edgeOutbox } :
      EdgeRuntime).Bounded := Nat.zero_le _
  have hkeep : ∀ (s : EdgeRuntime) e, (s.exec e).Bounded → s.Bounded → (s.exec e).Bounded :=
    fun _ _ h _ => h
  rw [always_iff hinit]
  exact along_congr hkeep (fun s e hs => hs.exec_iff e) hinit

/-- One entry is allowed: the second result drives out the first, which is then read back. -/
theorem not_memory_bounded : ¬∀ (cacheMaxEntries : ℕ) (es p q : List EdgeEvent),
    1 ≤ cacheMaxEntries → es = p ++ q →
    (run EdgeRuntime.exec { nodeId := "n", regionId := "r", cacheMaxEntries } p).Bounded := by
  intro h
  have hfull := h 1 _ [.storeResult ⟨0,by decide +kernel⟩ "a" ⟨[],rfl⟩,
    .storeResult ⟨1,by decide +kernel⟩ "b" ⟨[],rfl⟩,.handleRequest ⟨2,by decide +kernel⟩ "a"] []
    le_rfl rfl
  rw [Bounded] at hfull
  revert hfull
  decide +kernel

end EdgeRuntime
end Arsonist.Edge
