import Arsonist.GlobalControl.Replication

/-! The versions that a store gives to the writes of one key. They are counted from the row of the
key, so that they start again once the key is deleted. -/
namespace Arsonist.GlobalControl
open Arsonist.Library

namespace GlobalState
variable {V : Type*} (codec : JsonCodec V)

/-- The version of a key, zero when it is not stored. -/
def versionAt (s : GlobalState) (ns key : String) : ℤ :=
  ((s.kv.get? (ns,key)).map KvRow.version).getD 0

/-- What the successive `put`s of one key return in a history. -/
def putVersions (ns key : String) : GlobalState → List (StateOp V) → List ℤ
  | _, [] => []
  | s, .put now ns' key' value :: ops =>
    let put := s.put codec now ns' key' value
    if (ns',key') = (ns,key) then put.2 :: putVersions ns key put.1 ops
    else putVersions ns key put.1 ops
  | s, .delete ns' key' :: ops => putVersions ns key (s.delete ns' key').1 ops

/-- The operation writes the key. -/
def Puts (ns key : String) (op : StateOp V) : Prop := op.About ns key ∧ op.isPut = true

instance (ns key : String) (op : StateOp V) : Decidable (Puts ns key op) :=
  inferInstanceAs (Decidable (_ ∧ _))

/-- The operation deletes the key. -/
def Deletes (ns key : String) (op : StateOp V) : Prop := op.About ns key ∧ op.isPut = false

theorem Deletes.not_puts {ns key : String} {op : StateOp V} (h : Deletes ns key op) :
    ¬Puts ns key op := fun hputs => Bool.false_ne_true (h.2.symm.trans hputs.2)

/-- The key is written after it has been deleted. -/
def Revived (ns key : String) (ops : List (StateOp V)) : Prop :=
  ∃ p d q, ops = p ++ d :: q ∧ Deletes ns key d ∧ ∃ op ∈ q, Puts ns key op

/-- The key is deleted between two of its writes. -/
def Restarted (ns key : String) (ops : List (StateOp V)) : Prop :=
  ∃ p d q, ops = p ++ d :: q ∧ Deletes ns key d ∧
    (∃ op ∈ p, Puts ns key op) ∧ ∃ op ∈ q, Puts ns key op

variable {codec} {s : GlobalState} {ns key : String}

theorem put_snd (now : ℚ) (value : V) :
    (s.put codec now ns key value).2 = s.versionAt ns key+1 := rfl

theorem versionAt_put (now : ℚ) (ns' key' : String) (value : V) :
    (s.put codec now ns' key' value).1.versionAt ns key =
      if (ns',key') = (ns,key) then s.versionAt ns key+1 else s.versionAt ns key := by
  rw [versionAt, ← version_get codec, get_put]
  split_ifs with h h' h'
  · obtain ⟨rfl,rfl⟩ := Prod.mk.inj h
    rw [Entry.versionOf_some, version_get]
    rfl
  · exact absurd h.symm h'
  · exact absurd h'.symm h
  · rw [version_get]
    rfl

theorem versionAt_delete (ns' key' : String) :
    (s.delete ns' key').1.versionAt ns key =
      if (ns',key') = (ns,key) then 0 else s.versionAt ns key := by
  rw [versionAt, delete, Table.get?_erase]
  split_ifs with h h' h'
  · rfl
  · exact absurd h.symm h'
  · exact absurd h'.symm h
  · rfl

/-- What one operation does to the version of a key and to the list of what is returned. -/
theorem putVersions_cons (op : StateOp V) (ops : List (StateOp V)) :
    putVersions codec ns key s (op :: ops) =
      (if Puts ns key op then [s.versionAt ns key+1] else []) ++
        putVersions codec ns key (s.apply codec op) ops := by
  cases op with
  | put now ns' key' value =>
    rw [putVersions]
    by_cases h : (ns',key') = (ns,key)
    · rw [if_pos h, if_pos ⟨h,rfl⟩]
      obtain ⟨rfl,rfl⟩ := Prod.mk.inj h
      rfl
    · rw [if_neg h, if_neg fun he => h he.1]
      rfl
  | delete ns' key' =>
    rw [if_neg fun he => Bool.false_ne_true he.2]
    rfl

theorem versionAt_apply (op : StateOp V) :
    (s.apply codec op).versionAt ns key =
      if op.About ns key then if op.isPut = true then s.versionAt ns key+1 else 0
      else s.versionAt ns key := by
  cases op with
  | put now ns' key' value => exact versionAt_put now ns' key' value
  | delete ns' key' => exact versionAt_delete ns' key'

theorem putVersions_append (p q : List (StateOp V)) :
    putVersions codec ns key s (p ++ q) =
      putVersions codec ns key s p ++ putVersions codec ns key (run (apply codec) s p) q := by
  induction p generalizing s with
  | nil => rfl
  | cons op p ih =>
    rw [List.cons_append, putVersions_cons, putVersions_cons, ih, List.append_assoc]
    rfl

theorem putVersions_eq_nil_iff {ops : List (StateOp V)} :
    putVersions codec ns key s ops = [] ↔ ∀ op ∈ ops, ¬Puts ns key op := by
  induction ops generalizing s with
  | nil => simp [putVersions]
  | cons op ops ih =>
    rw [putVersions_cons, List.append_eq_nil_iff, ih, List.forall_mem_cons]
    refine and_congr_left fun _ => ?_
    split_ifs with h
    · simp [h]
    · simp [h]

/-- The versions of a key count up from the one it has, as long as it is not written again after
it was deleted. -/
theorem putVersions_of_not_revived {ops : List (StateOp V)} (h : ¬Revived ns key ops) :
    (∀ v ∈ putVersions codec ns key s ops, s.versionAt ns key < v) ∧
      (putVersions codec ns key s ops).Pairwise (· < ·) := by
  induction ops generalizing s with
  | nil => exact ⟨nofun,.nil⟩
  | cons op ops ih =>
    have hops : ¬Revived ns key ops := by
      rintro ⟨p,d,q,rfl,hd,hq⟩
      exact h ⟨op :: p,d,q,rfl,hd,hq⟩
    obtain ⟨hlt,hsorted⟩ := ih (s := s.apply codec op) hops
    rw [putVersions_cons]
    by_cases habout : op.About ns key
    · cases hput : op.isPut with
      | false =>
        have hnil : putVersions codec ns key (s.apply codec op) ops = [] :=
          putVersions_eq_nil_iff.mpr fun op' hop' hputs =>
            h ⟨[],op,ops,rfl,⟨habout,hput⟩,op',hop',hputs⟩
        rw [if_neg (Deletes.not_puts ⟨habout,hput⟩), hnil]
        exact ⟨nofun,.nil⟩
      | true =>
        rw [versionAt_apply, if_pos habout, if_pos hput] at hlt
        rw [if_pos ⟨habout,hput⟩]
        refine ⟨?_,List.pairwise_cons.mpr ⟨hlt,hsorted⟩⟩
        intro v hv
        obtain rfl | hv := List.mem_cons.mp hv
        · exact lt_add_one _
        · exact (lt_add_one _).trans (hlt v hv)
    · rw [versionAt_apply, if_neg habout] at hlt
      rw [if_neg fun he => habout he.1]
      exact ⟨hlt,hsorted⟩

theorem pairwise_of_not_restarted {ops : List (StateOp V)} (h : ¬Restarted ns key ops) :
    (putVersions codec ns key s ops).Pairwise (· < ·) := by
  induction ops generalizing s with
  | nil => exact .nil
  | cons op ops ih =>
    rw [putVersions_cons]
    by_cases hputs : Puts ns key op
    · have hrevived : ¬Revived ns key ops := by
        rintro ⟨p,d,q,rfl,hd,hq⟩
        exact h ⟨op :: p,d,q,rfl,hd,⟨op,List.mem_cons_self,hputs⟩,hq⟩
      obtain ⟨hlt,hsorted⟩ := putVersions_of_not_revived (s := s.apply codec op) hrevived
      rw [versionAt_apply, if_pos hputs.1, if_pos hputs.2] at hlt
      rw [if_pos hputs]
      exact List.pairwise_cons.mpr ⟨hlt,hsorted⟩
    · rw [if_neg hputs]
      refine ih ?_
      rintro ⟨p,d,q,rfl,hd,⟨op',hop',hp⟩,hq⟩
      exact h ⟨op :: p,d,q,rfl,hd,⟨op',List.mem_cons_of_mem _ hop',hp⟩,hq⟩

theorem versionAt_apply_nonneg (h : 0 ≤ s.versionAt ns key) (op : StateOp V) :
    0 ≤ (s.apply codec op).versionAt ns key := by
  rw [versionAt_apply]
  split_ifs
  · exact h.trans (lt_add_one _).le
  · exact le_rfl
  · exact h

theorem one_le_of_mem_putVersions {ops : List (StateOp V)} (hs : 0 ≤ s.versionAt ns key) {v : ℤ}
    (hv : v ∈ putVersions codec ns key s ops) : 1 ≤ v := by
  induction ops generalizing s with
  | nil => cases hv
  | cons op ops ih =>
    rw [putVersions_cons, List.mem_append] at hv
    obtain hv | hv := hv
    · split_ifs at hv with h
      · obtain rfl := List.mem_singleton.mp hv
        exact Int.le_add_of_nonneg_left hs
      · cases hv
    · exact ih (versionAt_apply_nonneg hs op) hv

/-- The next write of a key that is not stored has the version 1. -/
theorem one_mem_putVersions {ops : List (StateOp V)} (hs : s.versionAt ns key = 0)
    (h : ∃ op ∈ ops, Puts ns key op) : 1 ∈ putVersions codec ns key s ops := by
  induction ops generalizing s with
  | nil =>
    obtain ⟨op,hop,-⟩ := h
    cases hop
  | cons op ops ih =>
    rw [putVersions_cons]
    by_cases hputs : Puts ns key op
    · rw [if_pos hputs, hs]
      exact List.mem_cons_self
    · rw [if_neg hputs]
      refine ih ?_ ?_
      · rw [versionAt_apply]
        split_ifs with habout hput
        · exact absurd ⟨habout,hput⟩ hputs
        · rfl
        · exact hs
      · obtain ⟨op',hop',hp⟩ := h
        obtain rfl | hop' := List.mem_cons.mp hop'
        · exact absurd hp hputs
        · exact ⟨op',hop',hp⟩

theorem not_pairwise_of_restarted {ops : List (StateOp V)} (hs : 0 ≤ s.versionAt ns key)
    (h : Restarted ns key ops) : ¬(putVersions codec ns key s ops).Pairwise (· < ·) := by
  obtain ⟨p,d,q,rfl,hd,⟨op,hop,hputs⟩,hq⟩ := h
  intro hsorted
  rw [putVersions_append, putVersions_cons, if_neg hd.not_puts, List.nil_append,
    List.pairwise_append] at hsorted
  have hne : putVersions codec ns key s p ≠ [] := fun hnil =>
    putVersions_eq_nil_iff.mp hnil op hop hputs
  obtain ⟨v,hv⟩ := List.exists_mem_of_ne_nil _ hne
  have hzero : ((run (apply codec) s p).apply codec d).versionAt ns key = 0 := by
    rw [versionAt_apply, if_pos hd.1, hd.2]
    rfl
  have hlt : v < 1 := hsorted.2.2 v hv 1 (one_mem_putVersions hzero hq)
  exact hlt.not_ge (one_le_of_mem_putVersions hs hv)

/-- In a whole history the versions of a key go up exactly when the key is not deleted between
two of its writes. -/
theorem putVersions_increase_iff (codec : JsonCodec V) (ns key : String)
    (ops : List (StateOp V)) :
    (putVersions codec ns key {} ops).Pairwise (· < ·) ↔ ¬Restarted ns key ops :=
  ⟨fun hsorted h => not_pairwise_of_restarted le_rfl h hsorted,pairwise_of_not_restarted⟩

/-- The write after a deletion has the version of the first write. -/
theorem not_putVersions_increase : ¬∀ (ns key : String) (ops : List (StateOp Json)),
    (putVersions jsonCodec ns key {} ops).Pairwise (· < ·) := by
  intro h
  exact absurd (h "regions" "eu"
    [.put 0 "regions" "eu" .null,.delete "regions" "eu",.put 1 "regions" "eu" .null])
    (by decide)

/-- A replica that has an entry of the key skips the change that tells of such a write. -/
theorem applyChange_of_revived (s : GlobalState) (now : ℚ) (value : V) {c : Change V} {t : ℚ}
    {r : StateReplicator V × Applied} (hfor : c.IsFor ns key)
    (hversion : c.versionOf = ((s.delete ns key).1.put codec now ns key value).2)
    (hseen : 1 ≤ Entry.versionOf (r.1.state.get codec ns key)) :
    (StateReplicator.applyChange codec r (c,t)).1 = r.1 := by
  obtain ⟨rfl,rfl⟩ := Prod.mk.inj hfor
  rw [put_snd, versionAt_delete, if_pos rfl] at hversion
  have hskip : c.versionOf ≤ Entry.versionOf (r.1.state.get codec c.nsOf c.keyOf) :=
    hversion.trans_le hseen
  rw [StateReplicator.applyChange]
  dsimp only
  rw [if_pos hskip]

end GlobalState
end Arsonist.GlobalControl
