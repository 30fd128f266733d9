import Arsonist.Replication.StateReplication

/-! What a checkpoint tells. It is the largest version of the batches that a peer has got, and
versions are counted for each key: an entry with a smaller one may still wait, or be lost. -/
namespace Arsonist.Replication
open Arsonist.Library

namespace Replicating
variable {V : Type*} (s : Replicating V)

/-- Each entry up to the checkpoint of a peer that has been there from the start was sent to it. -/
def CheckpointsSound : Prop :=
  ∀ p ∈ s.fromStart, ∀ x ∈ s.enqueued, x.1.version ≤ s.replicator.getCheckpoint p → s.SentTo x.1 p

instance [DecidableEq V] : Decidable s.CheckpointsSound :=
  inferInstanceAs (Decidable (∀ p ∈ s.fromStart, ∀ x ∈ s.enqueued, _ → _))

/-- An entry is enqueued with a version above the checkpoints of all peers that have been there
from the start; and when a batch was sent to such a peer, the entries that are not in it and were
not sent to the peer before have larger versions than all of the batch. -/
def InOrder : FlushEvent V → Prop
  | .enqueue _ _ _ version _ => ∀ p ∈ s.fromStart, s.replicator.getCheckpoint p < version
  | .returned success => ∀ f ∈ s.flush, ∀ p ∈ f.sending, s.replicator.sendToPeer success →
      p ∈ s.fromStart → ∀ x ∈ s.enqueued, x.1 ∉ f.batch → ¬ s.SentTo x.1 p →
        IncrementalStateReplicator.maxVersion f.batch < x.1.version
  | _ => True

variable {s}

theorem getCheckpoint_sent (r : IncrementalStateReplicator V) (p : String)
    (batch : List (StateChangeEntry V)) (p' : String) :
    (r.sent p batch).getCheckpoint p' = if p' = p then
      max (r.getCheckpoint p) (IncrementalStateReplicator.maxVersion batch)
    else r.getCheckpoint p' := by
  have hupdate : (r.sent p batch).checkpoints p' = if p' = p then
      some (max (r.getCheckpoint p) (IncrementalStateReplicator.maxVersion batch))
    else r.checkpoints p' := Function.update_apply _ _ _ _
  rw [IncrementalStateReplicator.getCheckpoint, hupdate]
  split_ifs <;> rfl

/-- Nothing changes for the checkpoints when neither they, nor the entries, nor the deliveries do,
and no peer is new. -/
theorem CheckpointsSound.mono {s' : Replicating V} (h : s.CheckpointsSound)
    (hpeers : s'.fromStart ⊆ s.fromStart)
    (hentries : ∀ x ∈ s'.enqueued, ∃ ps, (x.1,ps) ∈ s.enqueued)
    (hcheckpoints : s'.replicator.checkpoints = s.replicator.checkpoints)
    (hdelivered : s'.delivered = s.delivered) : s'.CheckpointsSound := by
  intro p hp x hx hle
  obtain ⟨ps,hx'⟩ := hentries x hx
  rw [IncrementalStateReplicator.getCheckpoint, hcheckpoints] at hle
  rw [SentTo, hdelivered]
  exact h p (hpeers hp) (x.1,ps) hx' hle

theorem checkpointsSound_enqueue_iff (hs : s.Sound) (h : s.CheckpointsSound) (ns key : String) (value : V)
    (version : ℤ) (ts : ℚ) : (s.exec (.enqueue ns key value version ts)).CheckpointsSound ↔
      s.InOrder (.enqueue ns key value version ts) := by
  constructor
  · intro hafter p hp
    by_contra hle
    obtain ⟨d,hd,-,hmem⟩ := hafter p hp _ (List.mem_append_right _ (List.mem_singleton_self _))
      (not_lt.mp hle)
    exact lt_irrefl _ (hs.sent d hd _ hmem)
  · intro horder p hp x hx hle
    obtain hx | hx := List.mem_append.mp hx
    · exact h p hp x hx hle
    · rw [List.mem_singleton.mp hx] at hle
      exact absurd hle (not_le.mpr (horder p hp))

/-- What the deliveries are when a batch got through. -/
theorem mem_delivered_iff {f : Flush V} {q : String} (e : StateChangeEntry V) (p : String) :
    (∃ d ∈ s.delivered ++ [(q,f.batch)], d.1 = p ∧ e ∈ d.2) ↔
      s.SentTo e p ∨ q = p ∧ e ∈ f.batch := by
  simp only [List.mem_append, List.mem_singleton, or_and_right, exists_or, exists_eq_left, SentTo]

theorem checkpointsSound_returned_iff (h : s.CheckpointsSound) (success : Bool) :
    (s.exec (.returned success)).CheckpointsSound ↔ s.InOrder (.returned success) := by
  rcases exec_returned s success with ⟨f,q,hf,hsending,hok,heq⟩ | ⟨f,q,hf,hsending,hok,heq⟩ |
    ⟨hidle,heq⟩ <;> rw [heq]
  · constructor
    · intro hafter f' hf' p hp _ hstart x hx hbatch hunsent
      obtain rfl := Option.mem_unique hf' hf
      obtain rfl := Option.some.inj (hsending.symm.trans hp)
      by_contra hle
      have hcheckpoint : x.1.version ≤ (s.replicator.sent q f'.batch).getCheckpoint q := by
        rw [getCheckpoint_sent, if_pos rfl]
        exact (not_lt.mp hle).trans (le_max_right _ _)
      obtain hold | ⟨-,hnew⟩ := (mem_delivered_iff x.1 q).mp (hafter q hstart x hx hcheckpoint)
      · exact hunsent hold
      · exact hbatch hnew
    · intro horder p hp x hx hle
      refine (mem_delivered_iff x.1 p).mpr ?_
      change x.1.version ≤ (s.replicator.sent q f.batch).getCheckpoint p at hle
      rw [getCheckpoint_sent] at hle
      by_cases hpq : p = q
      · subst hpq
        rw [if_pos rfl, le_max_iff] at hle
        by_cases hbatch : x.1 ∈ f.batch
        · exact Or.inr ⟨rfl,hbatch⟩
        · refine Or.inl (by_contra fun hunsent => ?_)
          obtain hold | hnew := hle
          · exact hunsent (h p hp x hx hold)
          · exact absurd hnew (not_le.mpr (horder f hf p hsending hok hp x hx hbatch hunsent))
      · rw [if_neg hpq] at hle
        exact Or.inl (h p hp x hx hle)
  · refine iff_of_true h fun _ _ _ _ hsent => ?_
    rw [hok] at hsent
    cases hsent
  · refine iff_of_true h fun f hf p hp => ?_
    rw [hidle f hf] at hp
    cases hp

theorem checkpointsSound_exec_iff (hs : s.Sound) (h : s.CheckpointsSound) (e : FlushEvent V) :
    (s.exec e).CheckpointsSound ↔ s.InOrder e := by
  have hsame : ∀ x ∈ s.enqueued, ∃ ps, (x.1,ps) ∈ s.enqueued := fun x hx => ⟨x.2,hx⟩
  cases e with
  | enqueue ns key value version ts =>
    exact checkpointsSound_enqueue_iff hs h ns key value version ts
  | addPeer p =>
    refine iff_of_true (h.mono (List.Subset.refl _) hsame ?_ rfl) trivial
    change (s.replicator.addPeer p).checkpoints = _
    rw [IncrementalStateReplicator.addPeer]
    split_ifs <;> rfl
  | removePeer p =>
    refine iff_of_true (h.mono List.filter_sublist.subset (fun x hx => ?_) rfl rfl) trivial
    obtain ⟨y,hy,rfl⟩ := List.mem_map.mp hx
    exact hsame y hy
  | take =>
    refine iff_of_true ?_ trivial
    rw [exec]
    cases s.flush with
    | some f => exact h
    | none => exact h.mono (List.Subset.refl _) hsame rfl rfl
  | next =>
    refine iff_of_true ?_ trivial
    rcases exec_next s with ⟨f,p,-,-,-,heq⟩ | ⟨f,-,-,-,heq⟩ | heq <;> rw [heq]
    · exact h.mono (List.Subset.refl _) hsame rfl rfl
    · exact h.mono (List.Subset.refl _) hsame rfl rfl
    · exact h
  | returned success => exact checkpointsSound_returned_iff h success

/-- In every state of a run the checkpoints are sound exactly when entries are enqueued and batches
get through in the order of their versions. -/
theorem checkpointsSound_iff (localRegion : String) (peers : List String) (batchSize : ℤ)
    (sendFn : Bool) (events : List (FlushEvent V)) :
    (∀ p q, events = p ++ q →
      (run exec (start localRegion peers batchSize sendFn) p).CheckpointsSound) ↔
      Along exec InOrder (start localRegion peers batchSize sendFn) events := by
  have hinit : (start localRegion peers batchSize sendFn : Replicating V).CheckpointsSound :=
    fun p _ x hx => (List.not_mem_nil hx).elim
  rw [always_iff hinit]
  exact along_congr (I := fun s : Replicating V => s.Sound ∧ s.CheckpointsSound)
    (fun s e hnext hs => ⟨sound_exec hs.1 e,hnext⟩)
    (fun s e hs => checkpointsSound_exec_iff hs.1 hs.2 e) ⟨sound_start _ _ _ _,hinit⟩

/-- An entry whose send fails, and one with a larger version that gets through. -/
def overtaken : List (FlushEvent String) :=
  [.enqueue "n" "k" "v" 1 0,.take,.next,.returned false,.next,
    .enqueue "n" "k" "w" 2 1,.take,.next,.returned true]

theorem not_checkpointsSound : ¬ ∀ localRegion peers batchSize sendFn,
    ∀ events : List (FlushEvent String),
      (run exec (start localRegion peers batchSize sendFn) events).CheckpointsSound := by
  intro h
  have hlost := h "us" ["eu"] 50 true overtaken
  revert hlost
  decide +kernel

end Replicating
end Arsonist.Replication
