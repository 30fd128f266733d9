import Arsonist.ControlPlane.Memory
import Arsonist.Library.History
import Arsonist.Library.Smoothing
import Arsonist.Library.Steps

/-! The autoscaler of `control_plane/autoscaler.py`: the smoothed depth of the queue, load of the
nodes and load of the nodes with a GPU, and the depths that were seen last. Its state is that of the
module, and its loop evaluates the cluster only while this process may lead. -/
namespace Arsonist.ControlPlane
open Arsonist.Library Arsonist.Shared

structure Autoscaler where
  queueObs : List ℕ := []
  emaQueue : ℚ := 0
  emaLoad : ℚ := 0
  emaGpu : ℚ := 0

structure ScalingThresholds where
  queue : ℤ := 4
  load : ℚ := 3/4
  gpu : ℚ := 4/5

/-- One turn of the loop: whether this process may lead, and the cluster as it is then. -/
structure ScalingTick where
  leaderOk : Bool := true
  cluster : State

namespace State

def queueSnapshot (config : Config) (s : State) : List JobId :=
  match config.backend with
  | .sqlite => s.memory.queue
  | .postgres => s.db.queue

/-- The mean of the loads, and zero where there is no node. -/
def meanLoad (nodes : List NodeState) : ℚ :=
  if nodes = [] then 0 else (nodes.map NodeState.currentLoad).sum/nodes.length

def gpuNodes (s : State) : List NodeState :=
  s.memory.nodes.entries.filter fun n => n.nodeType = .gpu

def avgClusterLoad (s : State) : ℚ := meanLoad s.memory.nodes.entries

def gpuSaturation (s : State) : ℚ := meanLoad s.gpuNodes

/-- Whether a queued job asks for that power. -/
def queuedPower (s : State) (power : JobPower) : Bool :=
  s.memory.jobs.entries.any fun job => job.status = .queued ∧ job.power = power

def desiredNodeType (s : State) : NodeType :=
  if s.queuedPower .high then .gpu else if s.queuedPower .medium then .cpu else .edge

end State

namespace Autoscaler
variable (config : Config) (t : ScalingThresholds)

def alpha : ℚ := 35/100

def horizonMin : ℕ := 3

/-- What an evaluation makes of the averages and of the last 24 depths. -/
def observe (a : Autoscaler) (q : ℕ) (load gpu : ℚ) : Autoscaler where
  queueObs := (a.queueObs ++ [q]).rtake 24
  emaQueue := smooth alpha a.emaQueue q
  emaLoad := smooth alpha a.emaLoad load
  emaGpu := smooth alpha a.emaGpu gpu

/-- Growth over all depths that are kept, or over the last three. -/
def grows (a : Autoscaler) (q : ℕ) : Bool :=
  match a.queueObs.head?, a.queueObs.getLast? with
  | some first, some last =>
    let n := a.queueObs.length
    let dq : ℤ := last-first
    let velocity : ℚ := (last-(a.queueObs[n-3]?.getD 0 : ℕ))/2
    horizonMin ≤ n ∧ (2 ≤ dq ∧ 1 ≤ q ∨
      horizonMin+2 ≤ n ∧ 4/5 < velocity ∧ t.queue*(55/100) < a.emaQueue)
  | _, _ => false

/-- What `evaluate_scaling` returns, from the averages that it has just updated. -/
def triggers (a : Autoscaler) (q : ℕ) : Bool :=
  t.queue ≤ a.emaQueue ∨ t.load < a.emaLoad ∨ t.gpu < a.emaGpu ∨ a.grows t q

def observed (a : Autoscaler) (s : State) : Autoscaler :=
  a.observe (s.queueSnapshot config).length s.avgClusterLoad s.gpuSaturation

def evaluateScaling (a : Autoscaler) (s : State) : Autoscaler × Bool :=
  (a.observed config s,(a.observed config s).triggers t (s.queueSnapshot config).length)

/-- A turn of the loop leaves the averages as they are while another process leads. -/
def exec (a : Autoscaler) (tick : ScalingTick) : Autoscaler :=
  if tick.leaderOk then (a.evaluateScaling config t tick.cluster).1 else a

/-- The type of node that a turn of the loop asks for. -/
def installs (a : Autoscaler) (tick : ScalingTick) : Option NodeType :=
  if tick.leaderOk ∧ (a.evaluateScaling config t tick.cluster).2 then
    some tick.cluster.desiredNodeType
  else none

end Autoscaler
end Arsonist.ControlPlane

/-! When the cluster is scaled. A queue that does not grow and nodes that are not overloaded never
cause it; an overload does after a number of turns that is the same whatever came before. -/
namespace Arsonist.ControlPlane
open Arsonist.Library Arsonist.Shared

section MeanLoad
variable {nodes : List NodeState} {bound : ℚ}

theorem meanLoad_le (hbound : 0 ≤ bound) (h : ∀ n ∈ nodes, n.currentLoad ≤ bound) :
    State.meanLoad nodes ≤ bound := by
  rw [State.meanLoad]
  split_ifs with hnil
  · exact hbound
  · have hpos : (0 : ℚ) < nodes.length := by
      exact_mod_cast List.length_pos_iff.mpr hnil
    rw [div_le_iff₀ hpos]
    have hsum := List.sum_le_card_nsmul (nodes.map NodeState.currentLoad) bound fun x hx => by
      obtain ⟨n,hn,rfl⟩ := List.mem_map.mp hx
      exact h n hn
    rwa [List.length_map, nsmul_eq_mul, mul_comm] at hsum

theorem le_meanLoad (hne : nodes ≠ []) (h : ∀ n ∈ nodes, bound ≤ n.currentLoad) :
    bound ≤ State.meanLoad nodes := by
  have hpos : (0 : ℚ) < nodes.length := by
    exact_mod_cast List.length_pos_iff.mpr hne
  rw [State.meanLoad, if_neg hne, le_div_iff₀ hpos]
  have hsum := List.card_nsmul_le_sum (nodes.map NodeState.currentLoad) bound fun x hx => by
    obtain ⟨n,hn,rfl⟩ := List.mem_map.mp hx
    exact h n hn
  rwa [List.length_map, nsmul_eq_mul, mul_comm] at hsum

theorem meanLoad_nonneg (h : ∀ n ∈ nodes, 0 ≤ n.currentLoad) : 0 ≤ State.meanLoad nodes := by
  by_cases hnil : nodes = []
  · rw [State.meanLoad, if_pos hnil]
  · exact le_meanLoad hnil h

end MeanLoad

namespace Autoscaler
variable {config : Config} {t : ScalingThresholds} {a : Autoscaler} {tick : ScalingTick}

theorem alpha_nonneg : 0 ≤ alpha := by norm_num [alpha]

theorem alpha_pos : 0 < alpha := by norm_num [alpha]

theorem alpha_le_one : alpha ≤ 1 := by norm_num [alpha]

/-- The averages do not exceed their thresholds, and the depths that are kept do not grow. -/
structure Calm (t : ScalingThresholds) (a : Autoscaler) : Prop where
  queue : a.emaQueue < t.queue
  load : a.emaLoad ≤ t.load
  gpu : a.emaGpu ≤ t.gpu
  falls : a.queueObs.Pairwise fun earlier later => later ≤ earlier

/-- If this process leads, the queue is no longer than it was at any evaluation that is kept, and
neither it nor a node is over its threshold. -/
def Eases (config : Config) (t : ScalingThresholds) (a : Autoscaler) (tick : ScalingTick) : Prop :=
  tick.leaderOk = true →
    (∀ q ∈ a.queueObs, (tick.cluster.queueSnapshot config).length ≤ q) ∧
    ((tick.cluster.queueSnapshot config).length : ℤ) < t.queue ∧
    (∀ n ∈ tick.cluster.memory.nodes.entries, n.currentLoad ≤ t.load) ∧
    ∀ n ∈ tick.cluster.gpuNodes, n.currentLoad ≤ t.gpu

theorem calm_observed (ha : Calm t a) (hload : 0 ≤ t.load) (hgpu : 0 ≤ t.gpu)
    (h : Eases config t a tick) (hleads : tick.leaderOk = true) :
    Calm t (a.observed config tick.cluster) := by
  obtain ⟨hfalls,hqueue,hnodes,hgpus⟩ := h hleads
  constructor
  · exact smooth_lt alpha_nonneg alpha_le_one ha.queue (by exact_mod_cast hqueue)
  · exact smooth_le alpha_nonneg alpha_le_one ha.load (meanLoad_le hload hnodes)
  · exact smooth_le alpha_nonneg alpha_le_one ha.gpu (meanLoad_le hgpu hgpus)
  · refine List.Pairwise.sublist (List.drop_sublist _ _) ?_
    rw [List.pairwise_append]
    refine ⟨ha.falls,List.pairwise_singleton _ _,fun q hq last hlast => ?_⟩
    rw [List.mem_singleton.mp hlast]
    exact hfalls q hq

theorem last_le {l : List ℕ} (h : l.Pairwise fun earlier later => later ≤ earlier) {last : ℕ}
    (hlast : l.getLast? = some last) : ∀ q ∈ l, last ≤ q := by
  obtain ⟨front,rfl⟩ := List.getLast?_eq_some_iff.mp hlast
  intro q hq
  obtain hq | hq := List.mem_append.mp hq
  · exact (List.pairwise_append.mp h).2.2 q hq last (List.mem_singleton_self last)
  · rw [List.mem_singleton.mp hq]

/-- While the depths do not grow, there is no growth. -/
theorem Calm.not_grows (ha : Calm t a) (q : ℕ) : a.grows t q = false := by
  rw [grows]
  cases hfirst : a.queueObs.head? with
  | none => rfl
  | some first =>
    cases hlast : a.queueObs.getLast? with
    | none => rfl
    | some last =>
      have hle := last_le ha.falls hlast
      have hdq : last ≤ first := hle first (List.mem_of_mem_head? hfirst)
      dsimp only
      rw [decide_eq_false_iff_not]
      rintro ⟨-,⟨hgrown,-⟩ | ⟨hlen,hvelocity,-⟩⟩
      · omega
      · have hlt : a.queueObs.length-3 < a.queueObs.length := by
          rw [horizonMin] at hlen
          omega
        have hthird := hle _ (List.getElem_mem hlt)
        rw [List.getElem?_eq_getElem hlt, Option.getD_some] at hvelocity
        have hcast : (last : ℚ) ≤ (a.queueObs[a.queueObs.length-3] : ℕ) := by
          exact_mod_cast hthird
        linarith

theorem Calm.not_triggers (ha : Calm t a) (q : ℕ) : a.triggers t q = false := by
  rw [triggers, ha.not_grows]
  have hqueue := ha.queue
  have hload := ha.load
  have hgpu := ha.gpu
  simp [hqueue, hload, hgpu]

theorem calm_exec (ha : Calm t a) (hload : 0 ≤ t.load) (hgpu : 0 ≤ t.gpu)
    (h : Eases config t a tick) : Calm t (a.exec config t tick) := by
  rw [exec]
  split_ifs with hleads
  · exact calm_observed ha hload hgpu h hleads
  · exact ha

theorem installs_eq_none (ha : Calm t a) (hload : 0 ≤ t.load) (hgpu : 0 ≤ t.gpu)
    (h : Eases config t a tick) : a.installs config t tick = none := by
  rw [installs, if_neg]
  rintro ⟨hleads,htriggers⟩
  rw [evaluateScaling, (calm_observed ha hload hgpu h hleads).not_triggers] at htriggers
  cases htriggers

/-- As long as the queue gets no longer, and neither it nor any node is over its threshold, no
node is ever asked for. -/
theorem installs_nothing {ticks : List ScalingTick} (ha : Calm t a) (hload : 0 ≤ t.load)
    (hgpu : 0 ≤ t.gpu) (h : Along (exec config t) (Eases config t) a ticks) :
    emitted (exec config t) (installs config t) a ticks = [] := by
  induction ticks generalizing a with
  | nil => rfl
  | cons tick ticks ih =>
    rw [emitted_cons, installs_eq_none ha hload hgpu h.1, ih (calm_exec ha hload hgpu h.1) h.2]
    rfl

/-- A queue of three jobs that becomes one of two. -/
theorem installs_nothing_two_turns :
    emitted (exec {} {}) (installs {} {}) {}
      [{ cluster := { memory := { queue := ["a","b","c"] } } },
        { cluster := { memory := { queue := ["b","c"] } } }] = [] := by
  refine installs_nothing ⟨by norm_num,by norm_num,by norm_num,List.Pairwise.nil⟩ (by norm_num)
    (by norm_num) ⟨fun _ => ⟨?_,by decide,?_,?_⟩,fun _ => ⟨?_,by decide,?_,?_⟩,trivial⟩
  all_goals decide +kernel

/-- Every node carries some load, and there is one. -/
def Loaded (level : ℚ) (tick : ScalingTick) : Prop :=
  tick.cluster.memory.nodes.entries ≠ [] ∧
    ∀ n ∈ tick.cluster.memory.nodes.entries, level ≤ n.currentLoad

theorem emaLoad_run (a : Autoscaler) (ticks : List ScalingTick) :
    (run (exec config t) a ticks).emaLoad =
      run (smooth alpha) a.emaLoad
        ((ticks.filter ScalingTick.leaderOk).map fun tick => tick.cluster.avgClusterLoad) := by
  induction ticks generalizing a with
  | nil => rfl
  | cons tick ticks ih =>
    rw [run_cons, ih, exec]
    cases hleads : tick.leaderOk with
    | true => rw [List.filter_cons_of_pos hleads]; rfl
    | false => rw [List.filter_cons_of_neg (by simp [hleads])]; rfl

/-- An overload of all nodes has a node asked for after so many turns at the latest, however the
cluster was before, while this process leads. -/
theorem overload_installs (config : Config) {level : ℚ} (hlevel : t.load < level) :
    ∃ turns : ℕ, ∀ before overload last,
      (∀ tick ∈ before, ∀ n ∈ tick.cluster.memory.nodes.entries, 0 ≤ n.currentLoad) →
      (∀ tick ∈ overload ++ [last], tick.leaderOk = true ∧ Loaded level tick) →
      turns ≤ overload.length →
      (run (exec config t) {} (before ++ overload)).installs config t last =
        some last.cluster.desiredNodeType := by
  obtain ⟨turns,hturns⟩ := exists_lt_run_smooth alpha_pos alpha_le_one 0 hlevel
  refine ⟨turns,fun before overload last hbefore hover hlen => ?_⟩
  obtain ⟨hleads,-⟩ := hover last List.mem_concat_self
  have hstart : 0 ≤ (run (exec config t) {} before).emaLoad := by
    rw [emaLoad_run]
    refine le_run_smooth alpha_nonneg alpha_le_one le_rfl ?_
    intro load hload
    obtain ⟨tick,htick,rfl⟩ := List.mem_map.mp hload
    exact meanLoad_nonneg (hbefore tick (List.mem_filter.mp htick).1)
  have hlead : (overload ++ [last]).filter ScalingTick.leaderOk = overload ++ [last] :=
    List.filter_eq_self.mpr fun tick htick => (hover tick htick).1
  have hhigh : t.load < (run (exec config t) {} (before ++ (overload ++ [last]))).emaLoad := by
    rw [run_append, emaLoad_run _ (overload ++ [last]), hlead]
    refine hturns _ _ hstart ?_ ?_
    · rw [List.length_map, List.length_append]
      exact hlen.trans (Nat.le_add_right _ _)
    · intro load hload
      obtain ⟨tick,htick,rfl⟩ := List.mem_map.mp hload
      obtain ⟨-,hne,hloads⟩ := hover tick htick
      exact le_meanLoad hne hloads
  rw [← List.append_assoc, run_concat, exec, if_pos hleads] at hhigh
  have htriggers : ((run (exec config t) {} (before ++ overload)).evaluateScaling config t
      last.cluster).2 = true := decide_eq_true (Or.inr (Or.inl hhigh))
  exact if_pos ⟨hleads,htriggers⟩

theorem overload_installs_default : ∃ turns : ℕ, ∀ before overload last,
    (∀ tick ∈ before, ∀ n ∈ tick.cluster.memory.nodes.entries, 0 ≤ n.currentLoad) →
    (∀ tick ∈ overload ++ [last], tick.leaderOk = true ∧ Loaded 1 tick) →
    turns ≤ overload.length →
    (run (exec {} {}) {} (before ++ overload)).installs {} {} last =
      some last.cluster.desiredNodeType :=
  overload_installs {} (by norm_num)

end Autoscaler
end Arsonist.ControlPlane
