import Arsonist.Library.Runs

/-! State changes that are sent to several peers. One queue serves all of them: a flush takes a
batch off the queue and sends it to one peer after the other, while changes are enqueued and peers
are added and removed. -/
namespace Arsonist.Replication
open Arsonist.Library

/-- An entry of the queue; the serial number tells it from other entries with the same fields. -/
structure StateChangeEntry (V : Type*) where
  serial : ℕ
  ns : String
  key : String
  value : V
  version : ℤ
  sourceRegion : String
  ts : ℚ
  deriving DecidableEq

/-- The place that a bound of a slice stands for; a negative one counts from the end. -/
def sliceBound (length : ℕ) (bound : ℤ) : ℕ :=
  if 0 ≤ bound then min bound.toNat length else (length+bound).toNat

structure IncrementalStateReplicator (V : Type*) where
  localRegion : String := ""
  peerRegions : List String := []
  batchSize : ℤ := 50
  sendFn : Bool := true
  outboundQueue : List (StateChangeEntry V) := []
  checkpoints : String → Option ℤ := fun _ => none
  syncCount : ℕ := 0
  entriesSent : ℕ := 0

namespace IncrementalStateReplicator
variable {V : Type*} (r : IncrementalStateReplicator V)

def enqueue (e : StateChangeEntry V) : IncrementalStateReplicator V :=
  { r with outboundQueue := r.outboundQueue ++ [e] }

/-- The locked section of `_flush`. -/
def takeBatch : IncrementalStateReplicator V × List (StateChangeEntry V) :=
  ({ r with outboundQueue := r.outboundQueue.drop (sliceBound r.outboundQueue.length r.batchSize) },
    r.outboundQueue.take (sliceBound r.outboundQueue.length r.batchSize))

def getCheckpoint (peer : String) : ℤ := (r.checkpoints peer).getD 0

def maxVersion (batch : List (StateChangeEntry V)) : ℤ :=
  ((batch.map StateChangeEntry.version).max?).getD 0

/-- What `_flush` does after a send that succeeded. -/
def sent (peer : String) (batch : List (StateChangeEntry V)) : IncrementalStateReplicator V :=
  { r with entriesSent := r.entriesSent+batch.length,
           checkpoints := Function.update r.checkpoints peer
             (some (max (r.getCheckpoint peer) (maxVersion batch))) }

/-- Without a function to send with, `_send_to_peer` succeeds. -/
def sendToPeer (returned : Bool) : Bool := if r.sendFn then returned else true

def addPeer (regionId : String) : IncrementalStateReplicator V :=
  if regionId ∈ r.peerRegions then r else { r with peerRegions := r.peerRegions ++ [regionId] }

/-- The first occurrence is removed. -/
def removePeer (regionId : String) : IncrementalStateReplicator V :=
  { r with peerRegions := r.peerRegions.erase regionId }

end IncrementalStateReplicator

/-- A flush that has taken its batch: the place of the loop in the list of peers, which may change
under it, and the peer to which it is sending. -/
structure Flush (V : Type*) where
  batch : List (StateChangeEntry V)
  index : ℕ := 0
  sending : Option String := none

/-- The replicator and its flush, with the history: the entries that were enqueued, each with the
peers that have been there since before; the peers that have been there from the start; and the
batches that were sent successfully. -/
structure Replicating (V : Type*) where
  replicator : IncrementalStateReplicator V
  flush : Option (Flush V) := none
  enqueued : List (StateChangeEntry V × List String) := []
  fromStart : List String
  delivered : List (String × List (StateChangeEntry V)) := []

/-- `next` takes the loop to its next peer or ends it; `returned` is the end of a send, with what
the send function has returned (`false` also if it has raised). -/
inductive FlushEvent (V : Type*)
  | enqueue (ns key : String) (value : V) (version : ℤ) (ts : ℚ)
  | addPeer (regionId : String)
  | removePeer (regionId : String)
  | take
  | next
  | returned (success : Bool)

namespace Replicating
variable {V : Type*} (s : Replicating V)

/-- The peers of a list that are still there. -/
def stillThere (peers ps : List String) : List String := ps.filter fun p => p ∈ peers

/-- One thread runs the flushes, so a batch is taken when the flush before is over. -/
def exec : FlushEvent V → Replicating V
  | .enqueue ns key value version ts =>
    let e := ⟨s.enqueued.length,ns,key,value,version,s.replicator.localRegion,ts⟩
    { s with replicator := s.replicator.enqueue e,
             enqueued := s.enqueued ++ [(e,s.replicator.peerRegions)] }
  | .addPeer p => { s with replicator := s.replicator.addPeer p }
  | .removePeer p =>
    let r := s.replicator.removePeer p
    { s with replicator := r,
             enqueued := s.enqueued.map fun x => (x.1,stillThere r.peerRegions x.2),
             fromStart := stillThere r.peerRegions s.fromStart }
  | .take =>
    match s.flush with
    | some _ => s
    | none =>
      let batch := s.replicator.takeBatch.2
      { s with replicator := s.replicator.takeBatch.1,
               flush := if batch = [] then none else some { batch := batch } }
  | .next =>
    match s.flush with
    | none => s
    | some f =>
      match f.sending, s.replicator.peerRegions[f.index]? with
      | some _, _ => s
      | none, some p =>
        { s with flush := some { f with index := f.index+1, sending := some p } }
      | none, none =>
        { s with replicator := { s.replicator with syncCount := s.replicator.syncCount+1 },
                 flush := none }
  | .returned success =>
    match s.flush with
    | none => s
    | some f =>
      match f.sending with
      | none => s
      | some p =>
        if s.replicator.sendToPeer success then
          { s with replicator := s.replicator.sent p f.batch,
                   flush := some { f with sending := none },
                   delivered := s.delivered ++ [(p,f.batch)] }
        else { s with flush := some { f with sending := none } }

/-- A replicator that has just been made. -/
def start (localRegion : String) (peers : List String) (batchSize : ℤ) (sendFn : Bool) :
    Replicating V :=
  { replicator := { localRegion := localRegion, peerRegions := peers, batchSize := batchSize,
                    sendFn := sendFn }
    fromStart := peers }

/-- The entry was in a batch that was sent to the peer successfully. -/
def SentTo (e : StateChangeEntry V) (p : String) : Prop := ∃ d ∈ s.delivered, d.1 = p ∧ e ∈ d.2

instance [DecidableEq V] (e : StateChangeEntry V) (p : String) : Decidable (s.SentTo e p) :=
  inferInstanceAs (Decidable (∃ d ∈ s.delivered, _))

/-- The entries of the batch and of the queue, in the order in which they were enqueued. -/
def unsent : List (StateChangeEntry V) :=
  (s.flush.map Flush.batch).getD [] ++ s.replicator.outboundQueue

/-- The peers of an entry are there, and the serial numbers rise; the next one is new. -/
structure Sound : Prop where
  there : ∀ x ∈ s.enqueued, ∀ p ∈ x.2, p ∈ s.replicator.peerRegions
  rising : s.unsent.Pairwise fun e e' => e.serial < e'.serial
  below : ∀ e ∈ s.unsent, e.serial < s.enqueued.length
  sent : ∀ d ∈ s.delivered, ∀ e ∈ d.2, e.serial < s.enqueued.length

variable {s}

/-- What is in the batch is not in the queue as well. -/
theorem Sound.not_mem_queue (h : s.Sound) {f : Flush V} (hf : s.flush = some f)
    {e : StateChangeEntry V} (he : e ∈ f.batch) : e ∉ s.replicator.outboundQueue := by
  intro hq
  have hrising := h.rising
  rw [unsent, hf, List.pairwise_append] at hrising
  exact lt_irrefl _ (hrising.2.2 e he e hq)

theorem sound_start (localRegion : String) (peers : List String) (batchSize : ℤ) (sendFn : Bool) :
    (start localRegion peers batchSize sendFn : Replicating V).Sound :=
  ⟨fun _ hx => (List.not_mem_nil hx).elim,List.Pairwise.nil,
    fun _ he => (List.not_mem_nil he).elim,fun _ hd => (List.not_mem_nil hd).elim⟩

/-- A step that leaves the entries and the peers, and takes nothing new. -/
theorem Sound.mono {s' : Replicating V} (h : s.Sound) (hentries : s'.enqueued = s.enqueued)
    (hpeers : s.replicator.peerRegions ⊆ s'.replicator.peerRegions)
    (hunsent : s'.unsent.Sublist s.unsent)
    (hsent : ∀ d ∈ s'.delivered, d ∈ s.delivered ∨ d.2 ⊆ s.unsent) : s'.Sound := by
  refine ⟨?_,h.rising.sublist hunsent,?_,?_⟩
  · rw [hentries]
    exact fun x hx p hp => hpeers (h.there x hx p hp)
  · rw [hentries]
    exact fun e he => h.below e (hunsent.subset he)
  · rw [hentries]
    intro d hd e he
    obtain hold | hnew := hsent d hd
    · exact h.sent d hold e he
    · exact h.below e (hnew he)

theorem peerRegions_addPeer (r : IncrementalStateReplicator V) (p : String) :
    ∃ l, (r.addPeer p).peerRegions = r.peerRegions ++ l ∧
      (r.addPeer p).outboundQueue = r.outboundQueue := by
  rw [IncrementalStateReplicator.addPeer]
  split_ifs
  · exact ⟨[],(List.append_nil _).symm,rfl⟩
  · exact ⟨[p],rfl,rfl⟩

/-- What the end of a send does: the batch got through, or it did not, or there was no send. -/
theorem exec_returned (s : Replicating V) (success : Bool) :
    (∃ f p, s.flush = some f ∧ f.sending = some p ∧ s.replicator.sendToPeer success = true ∧
      s.exec (.returned success) =
        { s with replicator := s.replicator.sent p f.batch,
                 flush := some { f with sending := none },
                 delivered := s.delivered ++ [(p,f.batch)] }) ∨
    (∃ f p, s.flush = some f ∧ f.sending = some p ∧ s.replicator.sendToPeer success = false ∧
      s.exec (.returned success) = { s with flush := some { f with sending := none } }) ∨
    (∀ f ∈ s.flush, f.sending = none) ∧ s.exec (.returned success) = s := by
  cases hf : s.flush with
  | none => exact Or.inr (Or.inr ⟨by simp,by simp [exec, hf]⟩)
  | some f =>
    cases hsending : f.sending with
    | none => exact Or.inr (Or.inr ⟨by simp [hsending],by simp [exec, hf, hsending]⟩)
    | some p =>
      by_cases hok : s.replicator.sendToPeer success = true
      · exact Or.inl ⟨f,p,rfl,hsending,hok,by simp [exec, hf, hsending, hok]⟩
      · rw [Bool.not_eq_true] at hok
        exact Or.inr (Or.inl ⟨f,p,rfl,hsending,hok,by simp [exec, hf, hsending, hok]⟩)

/-- What the loop does: it goes to its next peer, or ends, or is sending and waits. -/
theorem exec_next (s : Replicating V) :
    (∃ f p, s.flush = some f ∧ f.sending = none ∧
      s.replicator.peerRegions[f.index]? = some p ∧ s.exec .next =
        { s with flush := some { f with index := f.index+1, sending := some p } }) ∨
    (∃ f, s.flush = some f ∧ f.sending = none ∧ s.replicator.peerRegions.drop f.index = [] ∧
      s.exec .next =
        { s with replicator := { s.replicator with syncCount := s.replicator.syncCount+1 },
                 flush := none }) ∨
    s.exec .next = s := by
  cases hf : s.flush with
  | none => exact Or.inr (Or.inr (by simp [exec, hf]))
  | some f =>
    cases hsending : f.sending with
    | some p => exact Or.inr (Or.inr (by simp [exec, hf, hsending]))
    | none =>
      cases hp : s.replicator.peerRegions[f.index]? with
      | some p => exact Or.inl ⟨f,p,rfl,hsending,hp,by simp [exec, hf, hsending, hp]⟩
      | none =>
        have hend := List.drop_eq_nil_of_le (List.getElem?_eq_none_iff.mp hp)
        exact Or.inr (Or.inl ⟨f,rfl,hsending,hend,by simp [exec, hf, hsending, hp]⟩)

theorem sound_enqueue (h : s.Sound) (ns key : String) (value : V) (version : ℤ) (ts : ℚ) :
    (s.exec (.enqueue ns key value version ts)).Sound := by
  have hunsent : (s.exec (.enqueue ns key value version ts)).unsent = s.unsent ++
      [⟨s.enqueued.length,ns,key,value,version,s.replicator.localRegion,ts⟩] :=
    (List.append_assoc _ _ _).symm
  have hlength : (s.exec (.enqueue ns key value version ts)).enqueued.length =
      s.enqueued.length+1 := List.length_append
  refine ⟨fun x hx p hp => ?_,?_,fun e he => ?_,fun d hd e he => ?_⟩
  · obtain hx | hx := List.mem_append.mp hx
    · exact h.there x hx p hp
    · rw [List.mem_singleton.mp hx] at hp
      exact hp
  · rw [hunsent, List.pairwise_append]
    refine ⟨h.rising,List.pairwise_singleton _ _,fun e he e' he' => ?_⟩
    rw [List.mem_singleton.mp he']
    exact h.below e he
  · rw [hlength]
    rw [hunsent] at he
    obtain he | he := List.mem_append.mp he
    · exact (h.below e he).trans (Nat.lt_succ_self _)
    · rw [List.mem_singleton.mp he]
      exact Nat.lt_succ_self _
  · rw [hlength]
    exact (h.sent d hd e he).trans (Nat.lt_succ_self _)

theorem sound_exec (h : s.Sound) (e : FlushEvent V) : (s.exec e).Sound := by
  have hsame : ∀ d ∈ s.delivered, d ∈ s.delivered ∨ d.2 ⊆ s.unsent := fun d hd => Or.inl hd
  cases e with
  | enqueue ns key value version ts => exact sound_enqueue h ns key value version ts
  | addPeer p =>
    obtain ⟨l,hpeers,hqueue⟩ := peerRegions_addPeer s.replicator p
    refine h.mono rfl ?_ ?_ hsame
    · change s.replicator.peerRegions ⊆ (s.replicator.addPeer p).peerRegions
      rw [hpeers]
      exact List.subset_append_left _ _
    · change (_ ++ (s.replicator.addPeer p).outboundQueue).Sublist _
      rw [hqueue]
      exact List.Sublist.refl _
  | removePeer p =>
    have hlength : (s.exec (.removePeer p)).enqueued.length = s.enqueued.length :=
      List.length_map _
    refine ⟨fun x hx p' hp' => ?_,h.rising,hlength ▸ h.below,hlength ▸ h.sent⟩
    obtain ⟨y,hy,rfl⟩ := List.mem_map.mp hx
    exact of_decide_eq_true (List.mem_filter.mp hp').2
  | take =>
    rw [exec]
    cases hf : s.flush with
    | some f => exact h
    | none =>
      refine h.mono rfl (List.Subset.refl _) ?_ hsame
      rw [unsent, unsent, hf]
      dsimp only
      split_ifs with hbatch
      · exact List.drop_sublist _ _
      · change (s.replicator.outboundQueue.take _ ++ s.replicator.outboundQueue.drop _).Sublist _
        rw [List.take_append_drop]
        exact List.Sublist.refl _
  | next =>
    rcases exec_next s with ⟨f,p,hf,-,-,heq⟩ | ⟨f,hf,-,-,heq⟩ | heq <;> rw [heq]
    · exact h.mono rfl (List.Subset.refl _) (by rw [unsent, unsent, hf]; rfl) hsame
    · exact h.mono rfl (List.Subset.refl _) (List.sublist_append_right _ _) hsame
    · exact h
  | returned success =>
    rcases exec_returned s success with ⟨f,p,hf,-,-,heq⟩ | ⟨f,p,hf,-,-,heq⟩ | ⟨-,heq⟩ <;> rw [heq]
    · refine h.mono rfl (List.Subset.refl _) (by rw [unsent, unsent, hf]; rfl) fun d hd => ?_
      obtain hold | hnew := List.mem_append.mp hd
      · exact Or.inl hold
      · refine Or.inr ?_
        rw [List.mem_singleton.mp hnew, unsent, hf]
        exact List.subset_append_left _ _
    · exact h.mono rfl (List.Subset.refl _) (by rw [unsent, unsent, hf]; rfl) hsame
    · exact h

end Replicating
end Arsonist.Replication
