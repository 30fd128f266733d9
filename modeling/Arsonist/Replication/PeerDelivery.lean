import Arsonist.Replication.StateReplication

/-! Whether every peer gets every entry. A batch is off the queue before it is sent: a peer whose
send fails does not get it again, and neither does one that the loop passes over because another
peer has left. -/
namespace Arsonist.Replication
open Arsonist.Library

section LiveList
variable {α : Type*} [DecidableEq α] {l : List α} {a : α} {i : ℕ}

/-- When an element from before the place of a loop goes, the rest moves up, and the loop passes
over the element at its place. -/
theorem drop_erase_of_mem_take (h : a ∈ l.take i) : (l.erase a).drop i = l.drop (i+1) := by
  induction l generalizing i with
  | nil => rw [List.take_nil] at h; cases h
  | cons b l ih =>
    cases i with
    | zero => cases h
    | succ i =>
      by_cases hb : b = a
      · rw [hb, List.erase_cons_head]
        rfl
      · have hrest : a ∈ l.take i := by
          obtain heq | hrest := List.mem_cons.mp h
          · exact absurd heq.symm hb
          · exact hrest
        rw [List.erase_cons_tail (by simpa using hb), List.drop_succ_cons, ih hrest]
        rfl

/-- When another element goes, it goes from what is to come. -/
theorem drop_erase_of_not_mem_take (h : a ∉ l.take i) :
    (l.erase a).drop i = (l.drop i).erase a := by
  induction l generalizing i with
  | nil => rw [List.erase_nil, List.drop_nil, List.erase_nil]
  | cons b l ih =>
    cases i with
    | zero => rfl
    | succ i =>
      rw [List.take_succ_cons, List.mem_cons, not_or] at h
      rw [List.erase_cons_tail (by simpa using fun heq : b = a => h.1 heq.symm),
        List.drop_succ_cons, List.drop_succ_cons, ih h.2]

omit [DecidableEq α] in
/-- What is to come is the element at the place of the loop, and the rest. -/
theorem mem_drop_iff : a ∈ l.drop i ↔ l[i]? = some a ∨ a ∈ l.drop (i+1) := by
  rw [List.drop_eq_getElem?_toList_append, List.mem_append, Option.mem_toList]

end LiveList

namespace Replicating
variable {V : Type*} (s : Replicating V)

/-- The flush is sending to the peer or will come to it. -/
def Ahead (f : Flush V) (p : String) : Prop :=
  f.sending = some p ∨ p ∈ s.replicator.peerRegions.drop f.index

/-- Each entry is, for each peer that has been there since before it was enqueued, waiting in the
queue, or in the batch of a flush that has not yet come to the peer, or it was in a batch that was
sent to the peer successfully. -/
def Delivering : Prop :=
  ∀ x ∈ s.enqueued, ∀ p ∈ x.2, x.1 ∈ s.replicator.outboundQueue ∨
    (∃ f ∈ s.flush, x.1 ∈ f.batch ∧ s.Ahead f p) ∨ s.SentTo x.1 p

instance [DecidableEq V] (f : Flush V) (p : String) : Decidable (s.Ahead f p) :=
  inferInstanceAs (Decidable (_ ∨ _))

instance [DecidableEq V] : Decidable s.Delivering :=
  inferInstanceAs (Decidable (∀ x ∈ s.enqueued, ∀ p ∈ x.2, _ ∨ (∃ f ∈ s.flush, _) ∨ _))

/-- The batch has an entry for a peer that has been there since before the entry was enqueued, and
the entry was not sent to it yet. -/
def Owed (f : Flush V) (p : String) : Prop :=
  ∃ x ∈ s.enqueued, p ∈ x.2 ∧ x.1 ∈ f.batch ∧ ¬ s.SentTo x.1 p

/-- A send fails only to peers to which nothing of the batch is owed or to which the loop comes
again; and no peer from before the place of the loop is removed when the peer at this place, to
which something is owed, would be passed over. -/
def NoneMissed : FlushEvent V → Prop
  | .returned success => ∀ f ∈ s.flush, ∀ p ∈ f.sending, s.replicator.sendToPeer success = false →
      p ∉ s.replicator.peerRegions.drop f.index → ¬ s.Owed f p
  | .removePeer q => ∀ f ∈ s.flush, q ∈ s.replicator.peerRegions.take f.index →
      ∀ p ∈ s.replicator.peerRegions[f.index]?, f.sending ≠ some p →
        p ∉ s.replicator.peerRegions.drop (f.index+1) → ¬ s.Owed f p
  | _ => True

variable {s}

/-- What is delivered stays so when no peer that it goes to is passed over. -/
theorem Delivering.mono {s' : Replicating V} (h : s.Delivering)
    (hentries : s'.enqueued = s.enqueued)
    (hkeeps : ∀ x ∈ s.enqueued, ∀ p ∈ x.2, (x.1 ∈ s.replicator.outboundQueue ∨
      (∃ f ∈ s.flush, x.1 ∈ f.batch ∧ s.Ahead f p) ∨ s.SentTo x.1 p) →
      x.1 ∈ s'.replicator.outboundQueue ∨
        (∃ f ∈ s'.flush, x.1 ∈ f.batch ∧ s'.Ahead f p) ∨ s'.SentTo x.1 p) : s'.Delivering := by
  intro x hx p hp
  rw [hentries] at hx
  exact hkeeps x hx p hp (h x hx p hp)

theorem Delivering.underway (h : s.Delivering) {f : Flush V} (hf : s.flush = some f) :
    ∀ x ∈ s.enqueued, ∀ p ∈ x.2, x.1 ∈ s.replicator.outboundQueue ∨
      (x.1 ∈ f.batch ∧ s.Ahead f p) ∨ s.SentTo x.1 p := by
  intro x hx p hp
  have hx := h x hx p hp
  rw [hf] at hx
  simpa using hx

/-- Between two flushes an entry waits or was sent. -/
theorem Delivering.of_no_flush (h : s.Delivering) (hf : s.flush = none) :
    ∀ x ∈ s.enqueued, ∀ p ∈ x.2, x.1 ∈ s.replicator.outboundQueue ∨ s.SentTo x.1 p := by
  intro x hx p hp
  have hx := h x hx p hp
  rw [hf] at hx
  simpa using hx

theorem delivering_enqueue (h : s.Delivering) (ns key : String) (value : V) (version : ℤ)
    (ts : ℚ) : (s.exec (.enqueue ns key value version ts)).Delivering := by
  intro x hx p hp
  obtain hx | hx := List.mem_append.mp hx
  · obtain hqueue | hrest := h x hx p hp
    · exact Or.inl (List.mem_append_left _ hqueue)
    · exact Or.inr hrest
  · rw [List.mem_singleton.mp hx]
    exact Or.inl (List.mem_append_right _ (List.mem_singleton_self _))

theorem delivering_addPeer (h : s.Delivering) (q : String) :
    (s.exec (.addPeer q)).Delivering := by
  obtain ⟨l,hpeers,hqueue⟩ := peerRegions_addPeer s.replicator q
  refine h.mono rfl ?_
  rintro x hx p hp (hwaits | ⟨f,hf,hbatch,hahead⟩ | hsent)
  · refine Or.inl ?_
    change x.1 ∈ (s.replicator.addPeer q).outboundQueue
    rwa [hqueue]
  · refine Or.inr (Or.inl ⟨f,hf,hbatch,hahead.imp id fun hdrop => ?_⟩)
    change p ∈ (s.replicator.addPeer q).peerRegions.drop f.index
    rw [hpeers, List.drop_append]
    exact List.mem_append_left _ hdrop
  · exact Or.inr (Or.inr hsent)

theorem delivering_take (hs : s.Sound) (h : s.Delivering) : (s.exec .take).Delivering := by
  rw [exec]
  cases hf : s.flush with
  | some f => exact h
  | none =>
    refine h.mono rfl ?_
    rintro x hx p hp (hwaits | ⟨f,hf',-⟩ | hsent)
    · rw [← List.take_append_drop
        (sliceBound s.replicator.outboundQueue.length s.replicator.batchSize)
        s.replicator.outboundQueue] at hwaits
      obtain hbatch | hwaits := List.mem_append.mp hwaits
      · have hne : s.replicator.takeBatch.2 ≠ [] := List.ne_nil_of_mem hbatch
        refine Or.inr (Or.inl ⟨_,if_neg hne,hbatch,Or.inr ?_⟩)
        exact hs.there x hx p hp
      · exact Or.inl hwaits
    · rw [hf] at hf'
      cases hf'
    · exact Or.inr (Or.inr hsent)

theorem delivering_next (h : s.Delivering) : (s.exec .next).Delivering := by
  rcases exec_next s with ⟨f,q,hf,hsending,hq,heq⟩ | ⟨f,hf,hsending,hend,heq⟩ | heq <;> rw [heq]
  · refine fun x hx p hp => (h.underway hf x hx p hp).imp id (Or.imp ?_ id)
    rintro ⟨hbatch,hsends | hdrop⟩
    · rw [hsending] at hsends
      cases hsends
    · refine ⟨_,rfl,hbatch,?_⟩
      rw [mem_drop_iff, hq] at hdrop
      exact hdrop
  · refine fun x hx p hp => (h.underway hf x hx p hp).imp id (Or.imp ?_ id)
    rintro ⟨hbatch,hsends | hdrop⟩
    · rw [hsending] at hsends
      cases hsends
    · rw [hend] at hdrop
      cases hdrop
  · exact h

/-- A send that succeeds delivers the batch to its peer. -/
theorem Delivering.deliver (h : s.Delivering) {f : Flush V} {q : String} (hf : s.flush = some f)
    (hsending : f.sending = some q) (r : IncrementalStateReplicator V)
    (hqueue : r.outboundQueue = s.replicator.outboundQueue)
    (hpeers : r.peerRegions = s.replicator.peerRegions) :
    ({ s with replicator := r, flush := some { f with sending := none },
              delivered := s.delivered ++ [(q,f.batch)] } : Replicating V).Delivering := by
  intro x hx p hp
  obtain hwaits | ⟨hbatch,hsends | hdrop⟩ | ⟨d,hd,hsent⟩ := h.underway hf x hx p hp
  · rw [← hqueue] at hwaits
    exact Or.inl hwaits
  · refine Or.inr (Or.inr ⟨_,List.mem_append_right _ (List.mem_singleton_self _),?_,hbatch⟩)
    rw [hsending] at hsends
    exact Option.some.inj hsends
  · rw [← hpeers] at hdrop
    exact Or.inr (Or.inl ⟨_,rfl,hbatch,Or.inr hdrop⟩)
  · exact Or.inr (Or.inr ⟨d,List.mem_append_left _ hd,hsent⟩)

theorem delivering_returned_iff (hs : s.Sound) (h : s.Delivering) (success : Bool) :
    (s.exec (.returned success)).Delivering ↔ s.NoneMissed (.returned success) := by
  rcases exec_returned s success with ⟨f,q,hf,hsending,hok,heq⟩ | ⟨f,q,hf,hsending,hok,heq⟩ |
    ⟨hidle,heq⟩ <;> rw [heq]
  · refine iff_of_true (h.deliver hf hsending _ rfl rfl) fun _ _ _ _ hfail => ?_
    rw [hok] at hfail
    cases hfail
  · constructor
    · rintro hafter f' hf' p hp - hlast ⟨x,hx,hpx,hbatch,hunsent⟩
      obtain rfl := Option.mem_unique hf' hf
      obtain hwaits | ⟨f'',hf'',-,hahead⟩ | hsent := hafter x hx p hpx
      · exact hs.not_mem_queue hf hbatch hwaits
      · obtain rfl := Option.mem_some_iff.mp hf''
        obtain hsends | hdrop := hahead
        · cases hsends
        · exact hlast hdrop
      · exact hunsent hsent
    · intro hmissed x hx p hp
      obtain hwaits | ⟨hbatch,hsends | hdrop⟩ | hsent := h.underway hf x hx p hp
      · exact Or.inl hwaits
      · by_cases hdrop : p ∈ s.replicator.peerRegions.drop f.index
        · exact Or.inr (Or.inl ⟨_,rfl,hbatch,Or.inr hdrop⟩)
        · by_cases hsent : s.SentTo x.1 p
          · exact Or.inr (Or.inr hsent)
          · exact absurd ⟨x,hx,hp,hbatch,hsent⟩ (hmissed f hf p hsends hok hdrop)
      · exact Or.inr (Or.inl ⟨_,rfl,hbatch,Or.inr hdrop⟩)
      · exact Or.inr (Or.inr hsent)
  · refine iff_of_true h fun f hf p hp => ?_
    rw [hidle f hf] at hp
    cases hp

/-- What is to come for a peer that stays, when another one goes. -/
theorem mem_drop_erase {l : List String} {q p : String} {i : ℕ} (hstays : p ∈ l.erase q)
    (hdrop : p ∈ l.drop i) : p ∈ (l.erase q).drop i ∨
      q ∈ l.take i ∧ l[i]? = some p ∧ p ∉ l.drop (i+1) := by
  by_cases hq : q ∈ l.take i
  · rw [drop_erase_of_mem_take hq]
    by_cases hlater : p ∈ l.drop (i+1)
    · exact Or.inl hlater
    · obtain hplace | hlater' := mem_drop_iff.mp hdrop
      · exact Or.inr ⟨hq,hplace,hlater⟩
      · exact absurd hlater' hlater
  · refine Or.inl ?_
    rw [drop_erase_of_not_mem_take hq]
    by_cases hpq : p = q
    · subst hpq
      rw [← List.take_append_drop i l, List.erase_append_right _ hq] at hstays
      exact (List.mem_append.mp hstays).resolve_left hq
    · exact (List.mem_erase_of_ne hpq).mpr hdrop

theorem delivering_removePeer_iff (hs : s.Sound) (h : s.Delivering) (q : String) :
    (s.exec (.removePeer q)).Delivering ↔ s.NoneMissed (.removePeer q) := by
  have hmem : ∀ x : StateChangeEntry V × List String, ∀ p,
      p ∈ stillThere (s.replicator.removePeer q).peerRegions x.2 ↔
        p ∈ x.2 ∧ p ∈ s.replicator.peerRegions.erase q := by
    intro x p
    rw [stillThere, List.mem_filter, decide_eq_true_iff]
    rfl
  constructor
  · rintro hafter f hf hq p hplace hsending hlast ⟨x,hx,hpx,hbatch,hunsent⟩
    have hstays : p ∈ s.replicator.peerRegions.erase q := by
      rw [← List.take_append_drop f.index s.replicator.peerRegions,
        List.erase_append_left _ hq]
      exact List.mem_append_right _ (mem_drop_iff.mpr (Or.inl hplace))
    rcases hafter _ (List.mem_map_of_mem hx) p ((hmem x p).mpr ⟨hpx,hstays⟩) with
      hwaits | ⟨f',hf',-,hsends | hdrop⟩ | hsent
    · exact hs.not_mem_queue hf hbatch hwaits
    · rw [Option.mem_unique hf' hf] at hsends
      exact hsending hsends
    · rw [Option.mem_unique hf' hf] at hdrop
      change p ∈ (s.replicator.peerRegions.erase q).drop f.index at hdrop
      rw [drop_erase_of_mem_take hq] at hdrop
      exact hlast hdrop
    · exact hunsent hsent
  · intro hmissed y hy p hp
    obtain ⟨x,hx,rfl⟩ := List.mem_map.mp hy
    obtain ⟨hpx,hstays⟩ := (hmem x p).mp hp
    obtain hwaits | ⟨f,hf,hbatch,hsends | hdrop⟩ | hsent := h x hx p hpx
    · exact Or.inl hwaits
    · exact Or.inr (Or.inl ⟨f,hf,hbatch,Or.inl hsends⟩)
    · obtain hdrop' | ⟨hq,hplace,hlast⟩ := mem_drop_erase hstays hdrop
      · exact Or.inr (Or.inl ⟨f,hf,hbatch,Or.inr hdrop'⟩)
      · by_cases hsends : f.sending = some p
        · exact Or.inr (Or.inl ⟨f,hf,hbatch,Or.inl hsends⟩)
        · by_cases hsent : s.SentTo x.1 p
          · exact Or.inr (Or.inr hsent)
          · exact absurd ⟨x,hx,hpx,hbatch,hsent⟩ (hmissed f hf hq p hplace hsends hlast)
    · exact Or.inr (Or.inr hsent)

/-- What one step does to delivery. -/
theorem delivering_exec_iff (hs : s.Sound) (h : s.Delivering) (e : FlushEvent V) :
    (s.exec e).Delivering ↔ s.NoneMissed e := by
  cases e with
  | enqueue ns key value version ts =>
    exact iff_of_true (delivering_enqueue h ns key value version ts) trivial
  | addPeer p => exact iff_of_true (delivering_addPeer h p) trivial
  | removePeer p => exact delivering_removePeer_iff hs h p
  | take => exact iff_of_true (delivering_take hs h) trivial
  | next => exact iff_of_true (delivering_next h) trivial
  | returned success => exact delivering_returned_iff hs h success

/-- In every state of a run each entry is delivered to each peer, or will be, exactly when no step
of the run misses a peer. -/
theorem delivering_iff (localRegion : String) (peers : List String) (batchSize : ℤ)
    (sendFn : Bool) (events : List (FlushEvent V)) :
    (∀ p q, events = p ++ q →
      (run exec (start localRegion peers batchSize sendFn) p).Delivering) ↔
      Along exec NoneMissed (start localRegion peers batchSize sendFn) events := by
  have hinit : (start localRegion peers batchSize sendFn : Replicating V).Delivering :=
    fun x hx => (List.not_mem_nil hx).elim
  rw [always_iff hinit]
  exact along_congr (I := fun s : Replicating V => s.Sound ∧ s.Delivering)
    (fun s e hnext hs => ⟨sound_exec hs.1 e,hnext⟩)
    (fun s e hs => delivering_exec_iff hs.1 hs.2 e) ⟨sound_start _ _ _ _,hinit⟩

/-- An entry, and a flush whose send fails. -/
def failedSend : List (FlushEvent String) :=
  [.enqueue "n" "k" "v" 1 0,.take,.next,.returned false]

theorem not_delivering : ¬ ∀ localRegion peers batchSize sendFn,
    ∀ events : List (FlushEvent String),
      (run exec (start localRegion peers batchSize sendFn) events).Delivering := by
  intro h
  have hlost := h "us" ["eu"] 50 true failedSend
  revert hlost
  decide +kernel

end Replicating
end Arsonist.Replication
