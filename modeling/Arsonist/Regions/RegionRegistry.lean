import Arsonist.Library.Floats
import Arsonist.Library.Keyed
import Arsonist.Library.Steps
import Mathlib.Data.List.Sort
import Mathlib.Data.String.Basic

/-! The registry of `regions/region_registry.py`: one row per region, each read and written as a
whole. -/
namespace Arsonist.Regions
open Arsonist.Library

inductive RegionStatus
  | active
  | degraded
  | draining
  | offline
  deriving DecidableEq

inductive RegionType
  | cloud
  | edge
  | hybrid
  deriving DecidableEq

structure GPUInventory where
  totalGpus : ℤ := 0
  availableGpus : ℤ := 0

structure RegionRecord where
  regionId : String
  regionType : RegionType := .cloud
  status : RegionStatus := .active
  gpuInventory : GPUInventory := {}
  avgLatencyMs : PyFloat := .number 0
  workloadSaturation : PyFloat := .number 0
  failoverPriority : ℤ := 0
  failoverTarget : Option String := none
  lastHeartbeat : ℚ := 0

instance : Keyed RegionRecord String where
  key r := r.regionId

/-- What a heartbeat reports of a region. -/
structure Metrics where
  gpuInventory : Option GPUInventory := none
  avgLatencyMs : Option PyFloat := none
  workloadSaturation : Option PyFloat := none

namespace RegionRecord
variable (r : RegionRecord)

def report (now : ℚ) (updates : Metrics) : RegionRecord :=
  { r with
    gpuInventory := updates.gpuInventory.getD r.gpuInventory,
    avgLatencyMs := updates.avgLatencyMs.getD r.avgLatencyMs,
    workloadSaturation := updates.workloadSaturation.getD r.workloadSaturation,
    lastHeartbeat := now }

def setStatus (status : RegionStatus) : RegionRecord := { r with status := status }

end RegionRecord

structure RegionRegistry where
  rows : Table RegionRecord := .empty

namespace RegionRegistry
variable (reg : RegionRegistry)

def get (id : String) : Option RegionRecord := reg.rows.get? id

def register (now : ℚ) (region : RegionRecord) : RegionRegistry :=
  { reg with rows := reg.rows.replace { region with lastHeartbeat := now } }

/-- A row is read, changed and written back; without it nothing is written. -/
def change (id : String) (f : RegionRecord → RegionRecord) :
    RegionRegistry × Option RegionRecord :=
  ({ reg with rows := reg.rows.modify id f },(reg.get id).map f)

def heartbeat (now : ℚ) (id : String) (updates : Metrics) : RegionRegistry × Option RegionRecord :=
  reg.change id fun r => r.report now updates

/-- In the order of their ids. -/
def listRegions (status : Option RegionStatus := none) (regionType : Option RegionType := none) :
    List RegionRecord :=
  ((reg.rows.entries.insertionSort fun a b => a.regionId ≤ b.regionId).filter fun r =>
    status.all (r.status = ·)).filter fun r => regionType.all (r.regionType = ·)

def activeRegions : List RegionRecord :=
  reg.listRegions.filter fun r => r.status = .active ∨ r.status = .degraded

def remove (id : String) : RegionRegistry := { reg with rows := reg.rows.erase id }

def updateStatus (id : String) (status : RegionStatus) : RegionRegistry × Option RegionRecord :=
  reg.change id fun r => r.setStatus status

variable {reg}

theorem regionId_of_get {id : String} {r : RegionRecord} (h : reg.get id = some r) :
    r.regionId = id := Table.key_of_get? h

theorem get_change {f : RegionRecord → RegionRecord} (hf : ∀ r, (f r).regionId = r.regionId)
    (id id' : String) :
    (reg.change id f).1.get id' = if id' = id then (reg.get id).map f else reg.get id' :=
  Table.get?_modify reg.rows id f hf id'

@[simp] theorem get_heartbeat (now : ℚ) (id id' : String) (updates : Metrics) :
    (reg.heartbeat now id updates).1.get id' =
      if id' = id then (reg.get id).map fun r => r.report now updates else reg.get id' :=
  get_change (f := fun r => r.report now updates) (fun _ => rfl) id id'

@[simp] theorem get_updateStatus (id id' : String) (status : RegionStatus) :
    (reg.updateStatus id status).1.get id' =
      if id' = id then (reg.get id).map fun r => r.setStatus status else reg.get id' :=
  get_change (f := fun r => r.setStatus status) (fun _ => rfl) id id'

/-- Without a filter, all rows are listed. -/
theorem listRegions_eq :
    reg.listRegions =
      reg.rows.entries.insertionSort fun a b => a.regionId ≤ b.regionId := by
  rw [listRegions]
  exact (List.filter_true _).trans (List.filter_true _)

theorem mem_listRegions {r : RegionRecord} :
    r ∈ reg.listRegions ↔ reg.get r.regionId = some r := by
  rw [listRegions_eq, List.mem_insertionSort]
  exact Table.mem_iff_get?

/-- The list names each region once. -/
theorem listRegions_nodup : (reg.listRegions.map RegionRecord.regionId).Nodup := by
  rw [listRegions_eq]
  exact ((List.perm_insertionSort _ _).map _).nodup_iff.mpr reg.rows.nodup

theorem listRegions_sorted :
    reg.listRegions.Pairwise fun a b => a.regionId < b.regionId := by
  let le := fun a b : RegionRecord => a.regionId ≤ b.regionId
  have _ : IsTrans RegionRecord le := ⟨fun _ _ _ => le_trans⟩
  have _ : Std.Total le := ⟨fun _ _ => le_total _ _⟩
  have hle : reg.listRegions.Pairwise le := by
    rw [listRegions_eq]
    exact List.pairwise_insertionSort le _
  have hne := List.pairwise_map.mp (reg.listRegions_nodup)
  exact (hle.and hne).imp fun h => lt_of_le_of_ne h.1 h.2

theorem mem_activeRegions {r : RegionRecord} :
    r ∈ reg.activeRegions ↔
      reg.get r.regionId = some r ∧ (r.status = .active ∨ r.status = .degraded) := by
  rw [activeRegions, List.mem_filter, mem_listRegions, decide_eq_true_iff]

end RegionRegistry
end Arsonist.Regions

/-! The health monitor of `regions/region_health.py`. -/
namespace Arsonist.Regions
open Arsonist.Library

structure RegionHealthMonitor where
  heartbeatTimeout : ℚ := 60
  degradedLatencyMs : ℚ := 500
  degradedSaturation : ℚ := 0.90

namespace RegionHealthMonitor
variable (monitor : RegionHealthMonitor)

def evaluate (region : RegionRecord) (ts : ℚ) : RegionStatus :=
  if region.status = .draining then .draining
  else if monitor.heartbeatTimeout < ts-region.lastHeartbeat then .offline
  else if region.avgLatencyMs.exceeds monitor.degradedLatencyMs ∨
      region.workloadSaturation.exceeds monitor.degradedSaturation then
    .degraded
  else .active

/-- One region of the snapshot: its status is written if it changes. -/
def checkRegion (ts : ℚ) (reg : RegionRegistry) (region : RegionRecord) : RegionRegistry :=
  let newStatus := monitor.evaluate region ts
  if newStatus ≠ region.status then (reg.updateStatus region.regionId newStatus).1 else reg

def checkAll (reg : RegionRegistry) (ts : ℚ) : RegionRegistry × List (String × RegionStatus) :=
  (reg.listRegions.foldl (monitor.checkRegion ts) reg,
    reg.listRegions.map fun region => (region.regionId,monitor.evaluate region ts))

variable {monitor} {ts : ℚ} {reg : RegionRegistry}

theorem get_checkRegion (region : RegionRecord) (id : String) :
    (monitor.checkRegion ts reg region).get id =
      if id = region.regionId ∧ monitor.evaluate region ts ≠ region.status then
        (reg.get id).map fun r => r.setStatus (monitor.evaluate region ts)
      else reg.get id := by
  rw [checkRegion]
  by_cases hstatus : monitor.evaluate region ts = region.status
  · rw [if_neg (not_not.mpr hstatus), if_neg fun h => h.2 hstatus]
  · rw [if_pos hstatus, RegionRegistry.get_updateStatus]
    by_cases hid : id = region.regionId
    · rw [if_pos hid, if_pos ⟨hid,hstatus⟩, hid]
    · rw [if_neg hid, if_neg fun h => hid h.1]

theorem touchesOwn_checkRegion :
    TouchesOwn (monitor.checkRegion ts) RegionRecord.regionId RegionRegistry.get :=
  fun _ _ _ hk => (get_checkRegion _ _).trans (if_neg fun h => hk h.1)

/-- A check gives each region the status that it evaluates to. -/
theorem get_checkAll (id : String) :
    (monitor.checkAll reg ts).1.get id =
      (reg.get id).map fun r => r.setStatus (monitor.evaluate r ts) := by
  change (run (monitor.checkRegion ts) reg reg.listRegions).get id = _
  cases hget : reg.get id with
  | none =>
    rw [touchesOwn_checkRegion.view_run, hget]
    · rfl
    · intro hmem
      obtain ⟨r,hr,rfl⟩ := List.mem_map.mp hmem
      rw [RegionRegistry.mem_listRegions, hget] at hr
      cases hr
  | some r =>
    obtain rfl := RegionRegistry.regionId_of_get hget
    obtain ⟨p,q,hpq⟩ := List.append_of_mem (RegionRegistry.mem_listRegions.mpr hget)
    have hn := reg.listRegions_nodup
    rw [hpq] at hn ⊢
    rw [touchesOwn_checkRegion.view_end hn, get_checkRegion, touchesOwn_checkRegion.view_turn hn,
      hget]
    split_ifs with h
    · rfl
    · rw [not_and, not_not] at h
      rw [Option.map_some, h rfl]
      rfl

end RegionHealthMonitor
end Arsonist.Regions
