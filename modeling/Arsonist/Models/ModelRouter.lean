import Arsonist.Library.Selection
import Arsonist.Models.Registry
import Mathlib.Algebra.BigOperators.Group.List.Basic
import Mathlib.Algebra.Order.Ring.Rat
import Mathlib.Order.WithBot

/-! Which model a request is led to, and on which GPU: `models/model_router.py`,
`gpu/gpu_scheduler.py` and `gpu/vram_manager.py`. The devices and the reservations are looked at
once for each model, and may change from one look to the next. -/
namespace Arsonist.Models
open Arsonist.Library

abbrev GpuIndex := ℕ

structure GpuDevice where
  index : GpuIndex
  freeVramMb : ℤ
  temperatureC : ℚ
  utilizationPct : ℚ

inductive VramCall
  | reserve (gpuIndex : GpuIndex) (mb : ℤ)
  | release (gpuIndex : GpuIndex) (mb : ℤ)

/-- What a call adds to the reservations of a GPU. -/
def VramCall.amount (i : GpuIndex) : VramCall → ℤ
  | reserve gpuIndex mb => if gpuIndex = i then mb else 0
  | release gpuIndex mb => if gpuIndex = i then -mb else 0

/-- What was reserved on a GPU and not released. -/
def outstanding (calls : List VramCall) (i : GpuIndex) : ℤ :=
  (calls.map (VramCall.amount i)).sum

/-- `_reserved`, with 0 for an index that has no entry. -/
abbrev VramManager := GpuIndex → ℤ

namespace VramManager

def reserve (gpuIndex : GpuIndex) (mb : ℤ) (v : VramManager) : VramManager :=
  Function.update v gpuIndex (v gpuIndex+mb)

def release (gpuIndex : GpuIndex) (mb : ℤ) (v : VramManager) : VramManager :=
  Function.update v gpuIndex (max 0 (v gpuIndex-mb))

def step (v : VramManager) : VramCall → VramManager
  | .reserve gpuIndex mb => v.reserve gpuIndex mb
  | .release gpuIndex mb => v.release gpuIndex mb

def after (calls : List VramCall) : VramManager := calls.foldl step fun _ => 0

theorem add_amount_le_step (v : VramManager) (call : VramCall) (i : GpuIndex) :
    v i+call.amount i ≤ v.step call i := by
  cases call with
  | reserve gpuIndex mb =>
    by_cases h : gpuIndex = i
    · subst h
      simp [step, reserve, VramCall.amount]
    · simp [step, reserve, VramCall.amount, h, Function.update_of_ne (Ne.symm h)]
  | release gpuIndex mb =>
    by_cases h : gpuIndex = i
    · subst h
      simp only [step, release, VramCall.amount, if_pos, Function.update_self]
      omega
    · simp [step, release, VramCall.amount, h, Function.update_of_ne (Ne.symm h)]

/-- A GPU never counts as having less reserved than is outstanding. -/
theorem outstanding_le_after (calls : List VramCall) (i : GpuIndex) :
    outstanding calls i ≤ after calls i := by
  induction calls using List.reverseRecOn with
  | nil => exact le_rfl
  | append_singleton calls call ih =>
    have hstep := add_amount_le_step (after calls) call i
    have hafter : after (calls ++ [call]) = (after calls).step call := by
      rw [after, List.foldl_concat, after]
    rw [hafter, outstanding, List.map_append, List.sum_append, List.map_singleton,
      List.sum_singleton]
    exact (add_le_add_left ih _).trans hstep

end VramManager

/-- What a look shows: the devices, and the calls that the reservations come from. -/
structure GpuScheduler where
  devices : List GpuDevice
  calls : List VramCall

namespace GpuScheduler
variable (s : GpuScheduler) {required : ℤ} {tensorTokens : ℤ} {quantization : String}

def effectiveFree (g : GpuDevice) : ℤ := g.freeVramMb-VramManager.after s.calls g.index

/-- The score of a device that has room. -/
def score (tensorTokens : ℤ) (quantization : String) (g : GpuDevice) : ℚ :=
  s.effectiveFree g-max 0 (g.temperatureC-80)*5-g.utilizationPct*2-
    min (tensorTokens/100000) 50+if quantization ≠ "none" then 128 else 0

/-- The score of a device in the loop of `pick_gpu`, which passes over those without room. -/
def score? (required tensorTokens : ℤ) (quantization : String) (g : GpuDevice) :
    Option (WithBot ℚ) :=
  if s.effectiveFree g < required then none else some (s.score tensorTokens quantization g)

/-- `pick_gpu`. No score is as low as that of no device. -/
def pickGpu (required tensorTokens : ℤ) (quantization : String) : Option GpuIndex :=
  (champion (s.score? required tensorTokens quantization) ⊥ s.devices).1.map GpuDevice.index

/-- Some device has room. -/
def Fits (required : ℤ) : Prop := ∃ g ∈ s.devices, required ≤ s.effectiveFree g

instance instDecidableFits (required : ℤ) : Decidable (s.Fits required) :=
  inferInstanceAs (Decidable (∃ _ ∈ s.devices, _ ≤ _))

theorem pickGpu_eq_none_iff :
    s.pickGpu required tensorTokens quantization = none ↔ ¬ s.Fits required := by
  rw [pickGpu, Option.map_eq_none_iff, champion_eq_none_iff, Fits]
  constructor
  · rintro h ⟨g,hg,hroom⟩
    have hscore := h g hg _ (if_neg (not_lt.mpr hroom))
    exact absurd hscore (not_le.mpr (WithBot.bot_lt_coe _))
  · intro h g hg y hy
    rw [score?] at hy
    split_ifs at hy with hroom
    exact absurd ⟨g,hg,not_lt.mp hroom⟩ h

/-- The device that is picked has room beside what is outstanding on it, and none with room has a
higher score. -/
def Picks (required tensorTokens : ℤ) (quantization : String) (i : GpuIndex) : Prop :=
  ∃ g ∈ s.devices, g.index = i ∧ required+outstanding s.calls i ≤ g.freeVramMb ∧
    ∀ g' ∈ s.devices, required ≤ s.effectiveFree g' →
      s.score tensorTokens quantization g' ≤ s.score tensorTokens quantization g

theorem pickGpu_picks {i : GpuIndex}
    (h : s.pickGpu required tensorTokens quantization = some i) :
    s.Picks required tensorTokens quantization i := by
  obtain ⟨g,hg,rfl⟩ := Option.map_eq_some_iff.mp h
  obtain ⟨p,q,hsplit,-,-,-⟩ := champion_first _ hg
  obtain ⟨hscore,-,hbest⟩ := champion_isHighest _ hg
  rw [score?] at hscore
  split_ifs at hscore with hroom
  have hfree := VramManager.outstanding_le_after s.calls g.index
  refine ⟨g,by rw [hsplit]; simp,rfl,?_,fun g' hg' hroom' => ?_⟩
  · rw [effectiveFree] at hroom
    omega
  · have hle := hbest g' hg' _ (if_neg (not_lt.mpr hroom'))
    rw [← Option.some.inj hscore] at hle
    exact WithBot.coe_le_coe.mp hle

end GpuScheduler

/-- A model and the GPU that was picked for it. -/
structure Placement where
  record : ModelRecord
  gpuIndex : Option GpuIndex

/-- The score of a placement in `route`. -/
def Placement.score (p : Placement) : ℚ :=
  p.record.requiredVramMb*(-1/100)+if p.gpuIndex.isSome then 5000 else 0

structure RouteRequest where
  modelName : String
  requiredVramMb : ℤ
  tensorTokens : ℤ
  quantization : String

namespace RouteRequest
variable (r : RouteRequest) (looks : ℕ → GpuScheduler)

def needs (m : ModelRecord) : ℤ := max r.requiredVramMb m.requiredVramMb

/-- What the loop of `route` makes of the model at a place. -/
def place (i : ℕ) (m : ModelRecord) : Placement :=
  ⟨m,(looks i).pickGpu (r.needs m) r.tensorTokens r.quantization⟩

/-- The placement that the loop of `route` ends with. -/
def best (models : List ModelRecord) : Option Placement :=
  (champion (fun p => some p.score) (-10^9) (models.mapIdx (r.place looks))).1

/-- `route`. The answer has the score of its placement; without one it is `no_model_match`. -/
def route (lower : String → String) (rows : List ModelRow) : Option (Option Placement) :=
  (ModelRegistry.search lower rows r.modelName 8).map (r.best looks)

/-- What the scores rank by: a GPU makes up for 500000 MB. -/
def cost (i : ℕ) (m : ModelRecord) : ℤ :=
  m.requiredVramMb-if (looks i).Fits (r.needs m) then 500000 else 0

/-- The models that `route` compares: the first eight that match. -/
def candidates (lower : String → String) (recs : List ModelRecord) : List ModelRecord :=
  (recs.filter (ModelRegistry.isMatch lower r.modelName)).take 8

variable {r looks} {models : List ModelRecord}

theorem isSome_place (i : ℕ) (m : ModelRecord) :
    (r.place looks i m).gpuIndex.isSome ↔ (looks i).Fits (r.needs m) := by
  rw [Option.isSome_iff_ne_none, ne_eq, place, GpuScheduler.pickGpu_eq_none_iff, not_not]

theorem score_place (i : ℕ) (m : ModelRecord) :
    (r.place looks i m).score = -(r.cost looks i m : ℚ)/100 := by
  have hrecord : (r.place looks i m).record = m := rfl
  rw [Placement.score, hrecord, cost]
  by_cases h : (looks i).Fits (r.needs m)
  · rw [if_pos ((isSome_place i m).mpr h), if_pos h]
    push_cast
    ring
  · rw [if_neg fun hsome => h ((isSome_place i m).mp hsome), if_neg h]
    push_cast
    ring

theorem score_place_le_iff {i j : ℕ} {m m' : ModelRecord} :
    (r.place looks j m').score ≤ (r.place looks i m).score ↔
      r.cost looks i m ≤ r.cost looks j m' := by
  rw [score_place, score_place, div_le_div_iff_of_pos_right (by norm_num), neg_le_neg_iff,
    Int.cast_le]

theorem score_place_le_floor_iff {i : ℕ} {m : ModelRecord} :
    (r.place looks i m).score ≤ -10^9 ↔ 10^11 ≤ r.cost looks i m := by
  rw [score_place, div_le_iff₀ (by norm_num), ← Int.cast_le (R := ℚ)]
  push_cast
  constructor
  · intro h
    linarith
  · intro h
    linarith

theorem mem_places_iff {p : Placement} :
    p ∈ models.mapIdx (r.place looks) ↔ ∃ i m, models[i]? = some m ∧ r.place looks i m = p := by
  simp only [List.mem_iff_getElem?, List.getElem?_mapIdx, Option.map_eq_some_iff]

/-- No model is answered exactly if there is none, but for models of a size that none has. -/
theorem best_eq_none_iff : r.best looks models = none ↔
    ∀ i m, models[i]? = some m → 10^11 ≤ r.cost looks i m := by
  rw [best, champion_eq_none_iff]
  constructor
  · intro h i m hm
    exact score_place_le_floor_iff.mp (h _ (mem_places_iff.mpr ⟨i,m,hm,rfl⟩) _ rfl)
  · rintro h p hp y hy
    obtain ⟨i,m,hm,rfl⟩ := mem_places_iff.mp hp
    rw [← Option.some.inj hy]
    exact score_place_le_floor_iff.mpr (h i m hm)

/-- A model is the first of those with the least cost. -/
structure IsCheapest (r : RouteRequest) (looks : ℕ → GpuScheduler) (models : List ModelRecord)
    (i : ℕ) (m : ModelRecord) : Prop where
  mem : models[i]? = some m
  le : ∀ j m', models[j]? = some m' → r.cost looks i m ≤ r.cost looks j m'
  lt : ∀ j m', models[j]? = some m' → j < i → r.cost looks i m < r.cost looks j m'

theorem best_eq_some {p : Placement} (h : r.best looks models = some p) :
    ∃ i m, p = r.place looks i m ∧ IsCheapest r looks models i m := by
  obtain ⟨before,behind,hsplit,hscore,-,hfirst⟩ := champion_first _ h
  have hhighest := (champion_isHighest _ h).2.2
  have hget : (models.mapIdx (r.place looks))[before.length]? = some p := by
    rw [hsplit]
    simp
  have hplace : ∀ j m', models[j]? = some m' →
      (models.mapIdx (r.place looks))[j]? = some (r.place looks j m') := by
    intro j m' hm'
    rw [List.getElem?_mapIdx, hm', Option.map_some]
  rw [List.getElem?_mapIdx, Option.map_eq_some_iff] at hget
  obtain ⟨m,hm,rfl⟩ := hget
  rw [← Option.some.inj hscore] at hhighest hfirst
  refine ⟨before.length,m,rfl,hm,fun j m' hm' => ?_,fun j m' hm' hj => ?_⟩
  · apply score_place_le_iff.mp
    exact hhighest _ (List.mem_of_getElem? (hplace j m' hm')) _ rfl
  · have hmem := hplace j m' hm'
    rw [hsplit, List.getElem?_append_left hj] at hmem
    have hlt := hfirst _ (List.mem_of_getElem? hmem) _ rfl
    exact not_le.mp fun hle => hlt.not_ge (score_place_le_iff.mpr hle)

/-- Where all models need less than a GPU makes up for, one that fits is preferred to each that does
not. -/
theorem IsCheapest.fits_iff {i : ℕ} {m : ModelRecord} (h : IsCheapest r looks models i m)
    (hpos : ∀ m ∈ models, 0 < m.requiredVramMb) (hsmall : ∀ m ∈ models, m.requiredVramMb < 500000) :
    (looks i).Fits (r.needs m) ↔
      ∃ j m', models[j]? = some m' ∧ (looks j).Fits (r.needs m') := by
  constructor
  · intro hfits
    exact ⟨i,m,h.mem,hfits⟩
  · rintro ⟨j,m',hm',hfits⟩
    by_contra hnot
    have hle := h.le j m' hm'
    have hlow := hpos m (List.mem_of_getElem? h.mem)
    have hhigh := hsmall m' (List.mem_of_getElem? hm')
    rw [cost, cost, if_neg hnot, if_pos hfits] at hle
    omega

/-- What a request is answered with, of some models that match: the first of the cheapest, and a GPU
that has room for it where some GPU has. -/
structure Answers (r : RouteRequest) (looks : ℕ → GpuScheduler) (models : List ModelRecord)
    (best : Option Placement) : Prop where
  none_iff : best = none ↔ ∀ i m, models[i]? = some m → 10^11 ≤ r.cost looks i m
  cheapest : ∀ p, best = some p → ∃ i, IsCheapest r looks models i p.record ∧
    (p.gpuIndex = none ↔ ¬ (looks i).Fits (r.needs p.record)) ∧
    ∀ g, p.gpuIndex = some g →
      (looks i).Picks (r.needs p.record) r.tensorTokens r.quantization g
  gpu_iff : ∀ p, best = some p → (∀ m ∈ models, m.requiredVramMb < 500000) →
    (p.gpuIndex = none ↔ ∀ j m, models[j]? = some m → ¬ (looks j).Fits (r.needs m))

theorem best_answers (hpos : ∀ m ∈ models, 0 < m.requiredVramMb) :
    Answers r looks models (r.best looks models) where
  none_iff := best_eq_none_iff
  cheapest := by
    intro p hp
    obtain ⟨i,m,rfl,hcheapest⟩ := best_eq_some hp
    refine ⟨i,hcheapest,GpuScheduler.pickGpu_eq_none_iff _,fun g hg => ?_⟩
    exact GpuScheduler.pickGpu_picks _ hg
  gpu_iff := by
    intro p hp hsmall
    obtain ⟨i,m,rfl,hcheapest⟩ := best_eq_some hp
    refine (GpuScheduler.pickGpu_eq_none_iff _).trans ?_
    rw [hcheapest.fits_iff hpos hsmall]
    push Not
    rfl

end RouteRequest

/-- After every run of requests to register models, and whatever the devices and the reservations
are at each look, `route` answers from the first eight of the latest records that match. -/
theorem modelRoute_after {run : List Registration} {rows : List ModelRow}
    (h : (Registration.registry run).Fetches rows) (lower : String → String) (r : RouteRequest)
    (looks : ℕ → GpuScheduler) :
    ∃ recs best, Registration.Recent run recs ∧ r.route looks lower rows = some best ∧
      r.Answers looks (r.candidates lower recs) best := by
  obtain ⟨recs,hrecs,rfl⟩ := Registration.exists_recent h
  have hpos : ∀ m ∈ r.candidates lower recs, 0 < m.requiredVramMb := by
    intro m hm
    have hmem := (List.mem_filter.mp (List.mem_of_mem_take hm)).1
    have hlatest := (hrecs.mem_iff m).mp hmem
    exact (Registration.of_mem_stored (Registration.mem_stored_of_latest hlatest).1).2.1
  refine ⟨recs,_,hrecs,?_,RouteRequest.best_answers hpos⟩
  rw [RouteRequest.route, ModelRegistry.search_recent hrecs, Option.map_some]
  rfl

/-- A model that is registered twice, and one that is smaller. -/
def threeRequests : List Registration :=
  [⟨{ modelId := "a", modelName := "llama", requiredVramMb := 40000 },⟨10,by decide +kernel⟩⟩,
   ⟨{ modelId := "b", modelName := "llama-small" },⟨11,by decide +kernel⟩⟩,
   ⟨{ modelId := "a", modelName := "llama" },⟨12,by decide +kernel⟩⟩]

def llamaRequest : RouteRequest := ⟨"llama",0,1024,"none"⟩

def oneGpu : GpuScheduler := ⟨[⟨0,20000,55,10⟩],[.reserve 0 30000,.release 0 20000]⟩

theorem modelRoute_after_threeRequests :
    ∃ recs best, Registration.Recent threeRequests recs ∧
      llamaRequest.route (fun _ => oneGpu) id (Registration.registry threeRequests).entries =
        some best ∧ llamaRequest.Answers (fun _ => oneGpu) (llamaRequest.candidates id recs) best :=
  modelRoute_after ⟨List.Perm.refl _,by decide +kernel⟩ id llamaRequest fun _ => oneGpu

/-- A model that fits nowhere costs more than two that fit, the first of which is the answer. -/
example : ((llamaRequest.best (fun _ => oneGpu) (threeRequests.map Registration.record)).map
    fun p => (p.record.modelId,p.gpuIndex)) = some ("b",some 0) := by decide +kernel

end Arsonist.Models
