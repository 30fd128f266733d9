import Arsonist.Runtime.DistributedExecution

/-! The accounts of an execution. Reports are added up while the shards are overwritten, so the
sums are right as long as each shard is reported once and is not started again. -/
namespace Arsonist.Runtime
open Arsonist.Library

/-- The shard is completed or failed. -/
def ExecutionShard.Terminal (s : ExecutionShard) : Prop := s.state = .completed ∨ s.state = .failed

instance (s : ExecutionShard) : Decidable s.Terminal := inferInstanceAs (Decidable (_ ∨ _))

/-- The counters of an execution are what its shards say. -/
structure DistributedExecution.Counted (e : DistributedExecution) : Prop where
  completed : e.completedShards = (e.shards.countP fun s => s.state = .completed : ℕ)
  failed : e.failedShards = (e.shards.countP fun s => s.state = .failed : ℕ)
  tokens : e.totalTokens = (e.shards.map ExecutionShard.tokensProcessed).sum

instance (e : DistributedExecution) : Decidable e.Counted :=
  decidable_of_iff (e.completedShards = (e.shards.countP fun s => s.state = .completed : ℕ) ∧
    e.failedShards = (e.shards.countP fun s => s.state = .failed : ℕ) ∧
    e.totalTokens = (e.shards.map ExecutionShard.tokensProcessed).sum)
    ⟨fun h => ⟨h.1,h.2.1,h.2.2⟩,fun h => ⟨h.1,h.2,h.3⟩⟩

def DistributedExecution.AllTerminal (e : DistributedExecution) : Prop := ∀ s ∈ e.shards, s.Terminal

instance (e : DistributedExecution) : Decidable e.AllTerminal :=
  inferInstanceAs (Decidable (∀ s ∈ e.shards, s.Terminal))

/-- The accounts of an active execution. -/
structure DistributedExecution.Open (e : DistributedExecution) : Prop where
  counted : e.Counted
  unfinished : ¬ e.AllTerminal

/-- The accounts of an execution that was moved to the completed ones. -/
structure DistributedExecution.Settled (e : DistributedExecution) : Prop where
  counted : e.Counted
  finished : e.AllTerminal

instance (e : DistributedExecution) : Decidable e.Open :=
  decidable_of_iff (e.Counted ∧ ¬ e.AllTerminal) ⟨fun h => ⟨h.1,h.2⟩,fun h => ⟨h.1,h.2⟩⟩

section Shards
variable {e : DistributedExecution} {shardId : String} {s : ExecutionShard}

/-- The shards around the first one of a name. -/
theorem withShard_eq (h : e.shard shardId = some s) (f : ExecutionShard → ExecutionShard) :
    ∃ as bs, e.shards = as ++ s :: bs ∧ e.withShard shardId f = as ++ f s :: bs := by
  obtain ⟨hs,as,bs,heq,has⟩ := List.find?_eq_some_iff_append.mp h
  refine ⟨as,bs,heq,?_⟩
  rw [DistributedExecution.withShard, heq]
  clear heq h
  induction as with
  | nil => exact List.replaceF_cons_of_some _ (if_pos (of_decide_eq_true hs))
  | cons a as ih =>
    have ha : ¬ a.shardId = shardId := by simpa using has a List.mem_cons_self
    have hskip : (if a.shardId = shardId then some (f a) else none) = none := if_neg ha
    rw [List.cons_append, List.cons_append, List.replaceF_cons_of_none _ hskip,
      ih fun b hb => has b (List.mem_cons_of_mem a hb)]

theorem length_withShard (h : e.shard shardId = some s) (f : ExecutionShard → ExecutionShard) :
    (e.withShard shardId f).length = e.shards.length := by
  obtain ⟨as,bs,heq,hnew⟩ := withShard_eq h f
  rw [heq, hnew, List.length_append, List.length_append]
  rfl

theorem countP_withShard (h : e.shard shardId = some s) (f : ExecutionShard → ExecutionShard)
    (P : ExecutionShard → Prop) [DecidablePred P] :
    (e.withShard shardId f).countP (fun s => P s)+(if P s then 1 else 0) =
      e.shards.countP (fun s => P s)+(if P (f s) then 1 else 0) := by
  obtain ⟨as,bs,heq,hnew⟩ := withShard_eq h f
  rw [heq, hnew]
  simp only [List.countP_append, List.countP_cons, decide_eq_true_eq]
  omega

theorem sum_withShard (h : e.shard shardId = some s) (f : ExecutionShard → ExecutionShard) :
    ((e.withShard shardId f).map ExecutionShard.tokensProcessed).sum+s.tokensProcessed =
      (e.shards.map ExecutionShard.tokensProcessed).sum+(f s).tokensProcessed := by
  obtain ⟨as,bs,heq,hnew⟩ := withShard_eq h f
  rw [heq, hnew]
  simp only [List.map_append, List.map_cons, List.sum_append, List.sum_cons]
  ring

theorem mem_withShard (h : e.shard shardId = some s) (f : ExecutionShard → ExecutionShard) :
    f s ∈ e.withShard shardId f := by
  obtain ⟨as,bs,-,hnew⟩ := withShard_eq h f
  rw [hnew]
  exact List.mem_append_right as List.mem_cons_self

/-- As many shards are terminal as are completed or failed. -/
theorem countP_terminal (l : List ExecutionShard) :
    l.countP (fun s => s.Terminal) =
      l.countP (fun s => s.state = .completed)+l.countP (fun s => s.state = .failed) := by
  induction l with
  | nil => rfl
  | cons s l ih =>
    have hs : (if s.Terminal then 1 else 0) =
        (if s.state = .completed then 1 else 0)+(if s.state = .failed then 1 else 0) := by
      cases h : s.state <;> simp [ExecutionShard.Terminal, h]
    simp only [List.countP_cons, ih, decide_eq_true_eq, hs]
    omega

/-- An execution whose counters are right is full when all its shards are terminal. -/
theorem DistributedExecution.Counted.full_iff (h : e.Counted) (htotal : e.totalShards = e.shards.length) :
    e.Full ↔ e.AllTerminal := by
  have hcount := countP_terminal e.shards
  have hle : e.shards.countP (fun s => s.Terminal) ≤ e.shards.length := List.countP_le_length
  have hall : e.shards.countP (fun s => s.Terminal) = e.shards.length ↔ e.AllTerminal := by
    rw [List.countP_eq_length]
    simp only [decide_eq_true_eq]
    rfl
  rw [DistributedExecution.Full, h.completed, h.failed, htotal, ← hall]
  omega

theorem started_open_iff (h : e.Open) (hs : e.shard shardId = some s) (now : ℚ) :
    DistributedExecution.Open { e with shards := e.withShard shardId (ExecutionShard.started now) } ↔
      ¬ s.Terminal := by
  have hcompleted := countP_withShard hs (ExecutionShard.started now) fun s => s.state = .completed
  have hfailed := countP_withShard hs (ExecutionShard.started now) fun s => s.state = .failed
  have hsum := sum_withShard hs (ExecutionShard.started now)
  obtain ⟨hc,hf,ht⟩ := h.counted
  simp only [ExecutionShard.started, reduceCtorEq, if_false] at hcompleted hfailed hsum
  constructor
  · rintro ⟨⟨hc',hf',-⟩,-⟩ (hst | hst)
    · dsimp only [ExecutionShard.started] at hc'
      rw [if_pos hst] at hcompleted
      omega
    · dsimp only [ExecutionShard.started] at hf'
      rw [if_pos hst] at hfailed
      omega
  · intro hst
    rw [ExecutionShard.Terminal, not_or] at hst
    rw [if_neg hst.1] at hcompleted
    rw [if_neg hst.2] at hfailed
    refine ⟨⟨?_,?_,?_⟩,fun hall => ?_⟩
    · dsimp only [ExecutionShard.started]
      omega
    · dsimp only [ExecutionShard.started]
      omega
    · dsimp only [ExecutionShard.started]
      omega
    · rcases hall _ (mem_withShard hs _) with hrun | hrun <;> cases hrun

/-- A counter that goes up with a shard's new state is right if the shard was not counted before. -/
theorem counter_iff (hs : e.shard shardId = some s) (f : ExecutionShard → ExecutionShard)
    (P : ExecutionShard → Prop) [DecidablePred P] {count : ℤ}
    (hcount : count = (e.shards.countP fun s => P s : ℕ)) :
    (if P (f s) then count+1 else count) =
      ((e.withShard shardId f).countP fun s => P s : ℕ) ↔ ¬P s := by
  have hnew := countP_withShard hs f P
  by_cases hafter : P (f s)
  · rw [if_pos hafter] at hnew ⊢
    by_cases hbefore : P s
    · rw [if_pos hbefore] at hnew
      exact iff_of_false (by omega) (not_not.mpr hbefore)
    · rw [if_neg hbefore] at hnew
      exact iff_of_true (by omega) hbefore
  · rw [if_neg hafter] at hnew ⊢
    by_cases hbefore : P s
    · rw [if_pos hbefore] at hnew
      exact iff_of_false (by omega) (not_not.mpr hbefore)
    · rw [if_neg hbefore] at hnew
      exact iff_of_true (by omega) hbefore

/-- A report leaves the counters right when it is the first one about its shard. -/
theorem reported_counted_iff (h : e.Counted) (hs : e.shard shardId = some s) (now : ℚ) (tokens : ℤ)
    (success : Bool) :
    (e.reported now shardId tokens success).Counted ↔ ¬ s.Terminal ∧ s.tokensProcessed = 0 := by
  have hsum := sum_withShard hs (ExecutionShard.reported now tokens success)
  have htokens : (ExecutionShard.reported now tokens success s).tokensProcessed = tokens := rfl
  have htotal := h.tokens
  rw [htokens] at hsum
  have h1 : (if success then e.completedShards+1 else e.completedShards) =
      ((e.withShard shardId (ExecutionShard.reported now tokens success)).countP
        fun s => s.state = .completed : ℕ) ↔ s.state ≠ .completed := by
    have hcounter := counter_iff hs (ExecutionShard.reported now tokens success)
      (fun s => s.state = .completed) h.completed
    cases success with
    | true => exact hcounter
    | false => exact hcounter
  have h2 : (if success then e.failedShards else e.failedShards+1) =
      ((e.withShard shardId (ExecutionShard.reported now tokens success)).countP
        fun s => s.state = .failed : ℕ) ↔ s.state ≠ .failed := by
    have hcounter := counter_iff hs (ExecutionShard.reported now tokens success)
      (fun s => s.state = .failed) h.failed
    cases success with
    | true => exact hcounter
    | false => exact hcounter
  have h3 : e.totalTokens+tokens =
      ((e.withShard shardId (ExecutionShard.reported now tokens success)).map
        ExecutionShard.tokensProcessed).sum ↔ s.tokensProcessed = 0 := by
    omega
  rw [ExecutionShard.Terminal, not_or, and_assoc]
  constructor
  · intro hnew
    exact ⟨h1.mp hnew.completed,h2.mp hnew.failed,h3.mp hnew.tokens⟩
  · rintro ⟨hne1,hne2,hzero⟩
    exact ⟨h1.mpr hne1,h2.mpr hne2,h3.mpr hzero⟩

theorem settled_closed_iff (now : ℚ) : (e.closed now).Settled ↔ e.Settled :=
  ⟨fun h => ⟨⟨h.counted.completed,h.counted.failed,h.counted.tokens⟩,h.finished⟩,
    fun h => ⟨⟨h.counted.completed,h.counted.failed,h.counted.tokens⟩,h.finished⟩⟩

end Shards

namespace DistributedExecutionManager

/-- The shard that a report is about. -/
def shard (m : DistributedExecutionManager) (executionId shardId : String) :
    Option ExecutionShard :=
  (m.executions.get? executionId).bind fun e => e.shard shardId

/-- The execution that a call moves to the completed ones. -/
def finalized (m : DistributedExecutionManager) : ExecutionCall → Option DistributedExecution
  | .completeShard now executionId shardId tokens success =>
    ((m.executions.get? executionId).filter fun e =>
      (e.shard shardId).isSome ∧ (e.reported now shardId tokens success).Full).map
      fun e => (e.reported now shardId tokens success).closed now
  | _ => none

/-- The executions that were moved to the completed ones in a run. -/
def moved (m : DistributedExecutionManager) (calls : List ExecutionCall) :
    List DistributedExecution :=
  (steps exec m calls).filterMap fun x => x.1.finalized x.2

/-- All executions of a run are accounted for. -/
structure Accounted (m : DistributedExecutionManager) (calls : List ExecutionCall) : Prop where
  active : ∀ e ∈ (run exec m calls).executions.entries, e.Open
  moved : ∀ e ∈ m.moved calls, e.Settled

/-- A call keeps the accounts: an execution comes with right counters and something to do, and
what is started or reported is not completed or failed already. -/
def Orderly (m : DistributedExecutionManager) : ExecutionCall → Prop
  | .createExecution _ e => e.Open
  | .planExecution _ _ _ _ shardCount => 0 < shardCount
  | .startShard _ executionId shardId => ∀ s ∈ m.shard executionId shardId, ¬ s.Terminal
  | .completeShard _ executionId shardId _ _ =>
    ∀ s ∈ m.shard executionId shardId, ¬ s.Terminal ∧ s.tokensProcessed = 0

instance (m : DistributedExecutionManager) : ∀ c, Decidable (m.Orderly c)
  | .createExecution _ e => inferInstanceAs (Decidable e.Open)
  | .planExecution _ _ _ _ shardCount => inferInstanceAs (Decidable (0 < shardCount))
  | .startShard _ executionId shardId =>
    inferInstanceAs (Decidable (∀ s ∈ m.shard executionId shardId, ¬ s.Terminal))
  | .completeShard _ executionId shardId _ _ =>
    inferInstanceAs (Decidable (∀ s ∈ m.shard executionId shardId,
      ¬ s.Terminal ∧ s.tokensProcessed = 0))

/-- What a call leaves behind is accounted for. -/
structure Accounts (m : DistributedExecutionManager) (c : ExecutionCall) : Prop where
  active : ∀ e ∈ (m.exec c).executions.entries, e.Open
  moved : ∀ e ∈ m.finalized c, e.Settled

/-- The active executions are accounted for, and their numbers of shards are right. -/
def Sound (m : DistributedExecutionManager) : Prop :=
  ∀ e ∈ m.executions.entries, e.Open ∧ e.totalShards = e.shards.length

variable {m : DistributedExecutionManager}

theorem moved_concat (calls : List ExecutionCall) (c : ExecutionCall) :
    m.moved (calls ++ [c]) = m.moved calls ++ ((run exec m calls).finalized c).toList := by
  rw [moved, steps_concat, List.filterMap_append, List.filterMap_cons]
  cases (run exec m calls).finalized c <;> rfl

/-- The accounts are right in every state of a run when each call leaves them right. -/
theorem accounted_iff (hempty : m.executions = Table.empty) (calls : List ExecutionCall) :
    (∀ p q, calls = p ++ q → m.Accounted p) ↔ Along exec Accounts m calls := by
  rw [along_iff]
  constructor
  · intro h p c q hp
    have hnext := h (p ++ [c]) q (by rw [hp, List.append_assoc]; rfl)
    refine ⟨fun e he => hnext.active e (by rwa [run_concat]),fun e he => hnext.moved e ?_⟩
    rw [moved_concat]
    exact List.mem_append_right _ (Option.mem_toList.mpr he)
  · intro h p q hp
    induction p using List.reverseRecOn generalizing q with
    | nil =>
      refine ⟨fun e he => ?_,fun e he => absurd he List.not_mem_nil⟩
      rw [run_nil, hempty] at he
      exact absurd he List.not_mem_nil
    | append_singleton p c ih =>
      have hbefore := ih (c :: q) (by rw [hp, List.append_assoc]; rfl)
      have hlast := h p c q (by rw [hp, List.append_assoc]; rfl)
      refine ⟨fun e he => hlast.active e (by rwa [run_concat] at he),fun e he => ?_⟩
      rw [moved_concat] at he
      obtain hold | hnew := List.mem_append.mp he
      · exact hbefore.moved e hold
      · exact hlast.moved e (Option.mem_toList.mp hnew)

/-- The completed executions are those that were moved there, the oldest left out. -/
theorem completed_exec (c : ExecutionCall) :
    (m.exec c).completed = match m.finalized c with
      | none => m.completed
      | some e => truncated m.maxHistory (m.completed ++ [e]) := by
  cases c with
  | createExecution now e => rfl
  | planExecution now workloadId mode regions shardCount => rfl
  | startShard now executionId shardId =>
    rw [exec, startShard]
    cases m.executions.get? executionId with
    | none => rfl
    | some e =>
      dsimp only
      cases e.shard shardId <;> rfl
  | completeShard now executionId shardId tokens success =>
    rw [exec, completeShard, finalized]
    cases m.executions.get? executionId with
    | none => rfl
    | some e =>
      dsimp only
      cases hs : e.shard shardId with
      | none => simp [hs, Option.filter_some]
      | some s =>
        by_cases hfull : (e.reported now shardId tokens success).Full
        · simp [hs, hfull, finalizeExecution, Option.filter_some]
        · simp [hs, hfull, Option.filter_some]

theorem mem_moved_of_mem_completed (hnone : m.completed = []) {calls : List ExecutionCall}
    {e : DistributedExecution} (h : e ∈ (run exec m calls).completed) : e ∈ m.moved calls := by
  induction calls using List.reverseRecOn with
  | nil =>
    rw [run_nil, hnone] at h
    exact absurd h List.not_mem_nil
  | append_singleton calls c ih =>
    rw [run_concat, completed_exec] at h
    rw [moved_concat, List.mem_append]
    cases hfin : (run exec m calls).finalized c with
    | none =>
      rw [hfin] at h
      exact Or.inl (ih h)
    | some d =>
      rw [hfin] at h
      obtain hold | hnew := List.mem_append.mp (mem_of_mem_truncated h)
      · exact Or.inl (ih hold)
      · exact Or.inr hnew

/-- A report is counted, and the execution finished when it is full. -/
theorem accounts_completeShard (h : m.Sound) (now : ℚ) (executionId shardId : String)
    (tokens : ℤ) (success : Bool) :
    m.Accounts (.completeShard now executionId shardId tokens success) ↔
      ∀ s ∈ m.shard executionId shardId, ¬ s.Terminal ∧ s.tokensProcessed = 0 := by
  have hopen : ∀ e ∈ m.executions.entries, e.Open := fun e he => (h e he).1
  have hiff : ∀ c, m.Accounts c ↔
      (∀ e ∈ (m.exec c).executions.entries, e.Open) ∧ ∀ e ∈ m.finalized c, e.Settled :=
    fun c => ⟨fun h => ⟨h.1,h.2⟩,fun h => ⟨h.1,h.2⟩⟩
  rw [hiff, exec, completeShard, finalized, shard]
  cases hget : m.executions.get? executionId with
  | none => simpa using hopen
  | some e =>
    dsimp only [Option.bind_some]
    rw [Option.filter_some]
    cases hs : e.shard shardId with
    | none => simpa [hs] using hopen
    | some s =>
      obtain ⟨he,htotal⟩ := h e (Table.mem_of_get? hget)
      have hcounted := reported_counted_iff he.counted hs now tokens success
      have hfulliff : (e.reported now shardId tokens success).Counted →
          ((e.reported now shardId tokens success).Full ↔
            (e.reported now shardId tokens success).AllTerminal) := fun hc =>
        hc.full_iff (htotal.trans (congrArg Nat.cast (length_withShard hs _).symm))
      by_cases hfull : (e.reported now shardId tokens success).Full
      · simp only [hfull, finalizeExecution, if_true, Option.isSome_some, decide_true,
          Option.map_some, Option.mem_some_iff, forall_eq', and_self]
        have hrest : ∀ d ∈ ((m.executions.put (e.reported now shardId tokens success)).erase
            ((e.reported now shardId tokens success).closed now).executionId).entries, d.Open := by
          intro d hd
          obtain ⟨hput,hne⟩ := Table.mem_erase.mp hd
          obtain rfl | ⟨hold,-⟩ := Table.mem_put.mp hput
          · exact absurd rfl hne
          · exact hopen d hold
        rw [and_iff_right hrest, settled_closed_iff, ← hcounted]
        exact ⟨fun hsettled => hsettled.counted,fun hc => ⟨hc,(hfulliff hc).mp hfull⟩⟩
      · simp only [hfull, if_false, Option.isSome_some, decide_false, and_false, Bool.false_eq_true,
          Option.map_none, Option.not_mem_none, false_implies, implies_true, and_true,
          Option.mem_some_iff, forall_eq']
        rw [Table.forall_mem_put hopen, ← hcounted]
        exact ⟨fun h => h.counted,fun hc => ⟨hc,fun hall => hfull ((hfulliff hc).mpr hall)⟩⟩

theorem accounts_startShard (h : m.Sound) (now : ℚ) (executionId shardId : String) :
    m.Accounts (.startShard now executionId shardId) ↔
      ∀ s ∈ m.shard executionId shardId, ¬ s.Terminal := by
  have hopen : ∀ e ∈ m.executions.entries, e.Open := fun e he => (h e he).1
  have hiff : m.Accounts (.startShard now executionId shardId) ↔
      ∀ e ∈ (m.startShard now executionId shardId).1.executions.entries, e.Open :=
    ⟨fun h => h.1,fun h => ⟨h,by simp [finalized]⟩⟩
  rw [hiff, startShard, shard]
  cases hget : m.executions.get? executionId with
  | none => simpa using hopen
  | some e =>
    dsimp only [Option.bind_some]
    cases hs : e.shard shardId with
    | none => simpa using hopen
    | some s =>
      simp only [Option.mem_some_iff, forall_eq']
      rw [Table.forall_mem_put hopen]
      exact started_open_iff (h e (Table.mem_of_get? hget)).1 hs now

theorem accounts_createExecution (h : m.Sound) (now : ℚ) (e : DistributedExecution) :
    m.Accounts (.createExecution now e) ↔ e.Open := by
  have hopen : ∀ e ∈ m.executions.entries, e.Open := fun e he => (h e he).1
  have hiff : m.Accounts (.createExecution now e) ↔
      ∀ d ∈ (m.createExecution now e).executions.entries, d.Open :=
    ⟨fun h => h.1,fun h => ⟨h,by simp [finalized]⟩⟩
  rw [hiff, createExecution]
  dsimp only
  rw [Table.forall_mem_put hopen]
  exact ⟨fun h => ⟨⟨h.counted.1,h.counted.2,h.counted.3⟩,h.unfinished⟩,
    fun h => ⟨⟨h.counted.1,h.counted.2,h.counted.3⟩,h.unfinished⟩⟩

/-- A planned execution starts with right counters. -/
theorem planned_open_iff (now : ℚ) (workloadId : String) (mode : ExecutionMode)
    (regions : List (Option String)) (shardCount : ℤ) :
    (planned now workloadId mode regions shardCount).Open ↔ 0 < shardCount := by
  have hpending : ∀ s ∈ (planned now workloadId mode regions shardCount).shards,
      s.state = .pending ∧ s.tokensProcessed = 0 := by
    intro s hs
    obtain ⟨i,-,rfl⟩ := List.mem_map.mp hs
    exact ⟨rfl,rfl⟩
  have hlength : (planned now workloadId mode regions shardCount).shards.length =
      shardCount.toNat := by
    rw [planned, List.length_map, List.length_range]
  constructor
  · intro h
    by_contra hle
    refine h.unfinished fun s hs => ?_
    have hpos := List.length_pos_of_mem hs
    omega
  · intro hpos
    refine ⟨⟨?_,?_,?_⟩,fun hall => ?_⟩
    · rw [List.countP_eq_zero.mpr fun s hs => by simp [(hpending s hs).1]]
      rfl
    · rw [List.countP_eq_zero.mpr fun s hs => by simp [(hpending s hs).1]]
      rfl
    · refine (List.sum_eq_zero fun n hn => ?_).symm
      obtain ⟨s,hs,rfl⟩ := List.mem_map.mp hn
      exact (hpending s hs).2
    · obtain ⟨s,hs⟩ := List.exists_mem_of_length_pos (hlength ▸ (by omega : 0 < shardCount.toNat))
      rcases hall s hs with hst | hst <;> rw [(hpending s hs).1] at hst <;> cases hst

theorem accounts_exec_iff (h : m.Sound) (c : ExecutionCall) : m.Accounts c ↔ m.Orderly c := by
  cases c with
  | createExecution now e => exact accounts_createExecution h now e
  | planExecution now workloadId mode regions shardCount =>
    have hplan : m.Accounts (.planExecution now workloadId mode regions shardCount) ↔
        m.Accounts (.createExecution now (planned now workloadId mode regions shardCount)) :=
      ⟨fun h => ⟨h.active,h.moved⟩,fun h => ⟨h.active,h.moved⟩⟩
    exact hplan.trans ((accounts_createExecution h now _).trans (planned_open_iff _ _ _ _ _))
  | startShard now executionId shardId => exact accounts_startShard h now executionId shardId
  | completeShard now executionId shardId tokens success =>
    exact accounts_completeShard h now executionId shardId tokens success

/-- The manager keeps the numbers of shards. -/
theorem totalShards_exec (h : ∀ e ∈ m.executions.entries, e.totalShards = e.shards.length)
    (c : ExecutionCall) :
    ∀ e ∈ (m.exec c).executions.entries, e.totalShards = e.shards.length := by
  cases c with
  | createExecution now e => exact (Table.forall_mem_put h _).mpr rfl
  | planExecution now workloadId mode regions shardCount => exact (Table.forall_mem_put h _).mpr rfl
  | startShard now executionId shardId =>
    rw [exec, startShard]
    cases hget : m.executions.get? executionId with
    | none => exact h
    | some e =>
      dsimp only
      cases hs : e.shard shardId with
      | none => exact h
      | some s =>
        refine (Table.forall_mem_put h _).mpr ?_
        dsimp only
        rw [length_withShard hs]
        exact h e (Table.mem_of_get? hget)
  | completeShard now executionId shardId tokens success =>
    rw [exec, completeShard]
    cases hget : m.executions.get? executionId with
    | none => exact h
    | some e =>
      dsimp only
      cases hs : e.shard shardId with
      | none => exact h
      | some s =>
        have hput : ∀ d ∈ (m.executions.put (e.reported now shardId tokens success)).entries,
            d.totalShards = d.shards.length := by
          refine (Table.forall_mem_put h _).mpr ?_
          dsimp only [DistributedExecution.reported]
          rw [length_withShard hs]
          exact h e (Table.mem_of_get? hget)
        by_cases hfull : (e.reported now shardId tokens success).Full
        · simp only [hfull, if_true]
          exact fun d hd => hput d (Table.mem_erase.mp hd).1
        · simp only [hfull, if_false]
          exact hput

/-- The executions are accounted for throughout a run exactly when all of its calls are orderly. -/
theorem accounted_iff_orderly (maxHistory : ℤ) (calls : List ExecutionCall) :
    (∀ p q, calls = p ++ q → Accounted { maxHistory := maxHistory } p) ↔
      Along exec Orderly { maxHistory := maxHistory } calls := by
  rw [accounted_iff rfl]
  refine along_congr (I := Sound) (fun m c hc hm => ?_) (fun m c hm => accounts_exec_iff hm c) ?_
  · exact fun e he => ⟨hc.active e he,totalShards_exec (fun d hd => (hm d hd).2) c e he⟩
  · exact fun e he => absurd he List.not_mem_nil

/-- A shard that is reported twice. -/
def reportedTwice : List ExecutionCall :=
  [.createExecution 0 { executionId := "e", shards := [{ shardId := "a" },{ shardId := "b" }] },
   .completeShard 1 "e" "a" 5 true,.completeShard 2 "e" "a" 5 true]

theorem not_accounted : ¬ ∀ (maxHistory : ℤ) (calls : List ExecutionCall),
    (∀ now e, .createExecution now e ∈ calls → (e.shards.map ExecutionShard.shardId).Nodup ∧
      ∀ s ∈ e.shards, s.state = .pending) →
    Accounted { maxHistory := maxHistory } calls := by
  intro h
  have hnames : ∀ now e, .createExecution now e ∈ reportedTwice →
      (e.shards.map ExecutionShard.shardId).Nodup ∧ ∀ s ∈ e.shards, s.state = .pending := by
    intro now e he
    simp only [reportedTwice, List.mem_cons, ExecutionCall.createExecution.injEq, reduceCtorEq,
      List.not_mem_nil, or_false] at he
    obtain ⟨-,rfl⟩ := he
    decide
  have hcounted : ∀ e ∈ moved {} reportedTwice, e.Counted := fun e he =>
    ((h 500 reportedTwice hnames).moved e he).counted
  exact absurd hcounted (by decide +kernel)

end DistributedExecutionManager
end Arsonist.Runtime
