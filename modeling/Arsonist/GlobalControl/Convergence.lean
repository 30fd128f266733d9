import Arsonist.GlobalControl.Replication

/-! Replicas that apply one set of changes in different orders. The store numbers its writes
itself, so a gap in the versions that arrive is taken for a conflict, and the time of the local
write decides it: which value stays depends on the order and on the clock. -/
namespace Arsonist.GlobalControl
open Arsonist.Library

/-- A finite set of change records: the versions of a key are distinct, and the timestamps
increase with them. -/
structure ChangeSet (V : Type*) where
  changes : List (Change V)
  distinct : ∀ ns key, (StateReplicator.versionsAbout changes ns key).Nodup
  increasing : ∀ ns key, ∀ c ∈ changes, ∀ d ∈ changes, c.IsFor ns key → d.IsFor ns key →
    c.versionOf < d.versionOf → c.tsOf < d.tsOf

/-- The change has the highest version of its key. -/
def ChangeSet.Highest {V : Type*} (cs : ChangeSet V) (ns key : String) (c : Change V) : Prop :=
  c ∈ cs.changes ∧ c.IsFor ns key ∧ ∀ d ∈ cs.changes, d.IsFor ns key → d.versionOf ≤ c.versionOf

namespace StateReplicator
variable {V : Type*} (codec : JsonCodec V)

/-- The batches contain each change of the set once, in some order; the clock does not go
backwards. -/
def Delivers (batches : List (List (Turn V))) (cs : ChangeSet V) : Prop :=
  (batches.flatten.map Prod.fst).Perm cs.changes ∧ (batches.flatten.map Prod.snd).Pairwise (· ≤ ·)

/-- The replica after all batches. -/
def applyAll (r : StateReplicator V) (batches : List (List (Turn V))) : StateReplicator V :=
  batches.foldl (fun r batch => (applyRemoteChanges codec r batch).1) r

def value? (r : StateReplicator V) (ns key : String) : Option V :=
  (r.state.get codec ns key).map Entry.value

/-- Two replicas that start with empty stores end with the same values, whatever the orders, the
batches and the clocks, and these are the values of the highest versions. -/
def Converges (cs : ChangeSet V) : Prop :=
  ∀ r r' : StateReplicator V, r.state = {} → r'.state = {} →
    ∀ batches batches', Delivers batches cs → Delivers batches' cs → ∀ ns key,
      value? codec (applyAll codec r batches) ns key =
        value? codec (applyAll codec r' batches') ns key ∧
      ∀ c, cs.Highest ns key c →
        value? codec (applyAll codec r batches) ns key = some (c.valueOf codec)

/-- The highest version of each key is positive and its value reads back as itself. And it is at
most 2; or its value is also what every other positive version leaves when it stays through `n`
conflicts, that is when it is read back `n+1` times: for each `n` with fewer than `d.versionOf+n`
versions above `d.versionOf+n`, which the stored version can then leave behind. -/
def Settled (cs : ChangeSet V) : Prop :=
  ∀ ns key c, cs.Highest ns key c →
    1 ≤ c.versionOf ∧ codec.readBack (c.valueOf codec) = c.valueOf codec ∧
      (c.versionOf ≤ 2 ∨ ∀ d ∈ cs.changes, d.IsFor ns key → 1 ≤ d.versionOf → ∀ n : ℕ,
        (versionsAbout cs.changes ns key).countP (d.versionOf+n < ·) < d.versionOf+n →
        codec.readBack^[n+1] (d.valueOf codec) = c.valueOf codec)

/-- Values that are the same when they are read back once and twice: only a string that is the
JSON text of such a string is not. -/
def Stable (cs : ChangeSet V) : Prop :=
  ∀ c ∈ cs.changes, codec.readBack (codec.readBack (c.valueOf codec)) =
    codec.readBack (c.valueOf codec)

variable {codec}

theorem get_applyAll (batches : List (List (Turn V))) (r : StateReplicator V) (ns key : String) :
    (applyAll codec r batches).state.get codec ns key =
      (about ns key batches.flatten).foldl (Entry.after codec) (r.state.get codec ns key) := by
  induction batches generalizing r with
  | nil => rfl
  | cons batch batches ih =>
    rw [applyAll, List.foldl_cons]
    refine (ih _).trans ?_
    rw [get_applyRemoteChanges, List.flatten_cons, about, about, about, List.filter_append,
      List.foldl_append]

/-- What a replica without entries makes of the batches. -/
theorem value?_applyAll {r : StateReplicator V} (hr : r.state = {})
    (batches : List (List (Turn V))) (ns key : String) :
    value? codec (applyAll codec r batches) ns key =
      ((about ns key batches.flatten).foldl (Entry.after codec) none).map Entry.value := by
  rw [value?, get_applyAll, hr]
  rfl

/-- The turns about a key are those of its changes. -/
theorem Delivers.about_perm {batches : List (List (Turn V))} {cs : ChangeSet V}
    (h : Delivers batches cs) (ns key : String) :
    ((about ns key batches.flatten).map Prod.fst).Perm
      (cs.changes.filter fun c => c.IsFor ns key) := by
  refine List.Perm.trans (List.Perm.of_eq ?_) (h.1.filter _)
  rw [about, List.filter_map]
  rfl

end StateReplicator

namespace Entry
variable {V : Type*} {codec : JsonCodec V} {l : Option (Entry V)} {t : Turn V}

/-- Turns of old changes leave the entry as it is. -/
theorem foldl_after_of_le {ts : List (Turn V)} (h : ∀ t ∈ ts, t.1.versionOf ≤ versionOf l) :
    ts.foldl (after codec) l = l := by
  induction ts with
  | nil => rfl
  | cons t ts ih =>
    obtain ⟨ht,hts⟩ := List.forall_mem_cons.mp h
    rw [List.foldl_cons, after_of_le ht, ih hts]

/-- What a change puts is its own value or the one that was there; the latter only if the change
is in conflict. -/
theorem resolved_or (codec : JsonCodec V) (l : Option (Entry V)) (c : Change V) :
    (StateReplicator.resolved codec l c).1 = c.valueOf codec ∨
      ∃ e, l = some e ∧ (StateReplicator.resolved codec l c).1 = e.value := by
  cases l with
  | none => exact Or.inl rfl
  | some e =>
    rw [StateReplicator.resolved]
    split_ifs
    · rw [StateReplicator.resolveConflict]
      split_ifs
      · exact Or.inl rfl
      · exact Or.inr ⟨e,rfl,rfl⟩
    · exact Or.inl rfl

/-- The next version is not in conflict. -/
theorem resolved_of_next {c : Change V} (h : c.versionOf = versionOf l+1) :
    (StateReplicator.resolved codec l c).1 = c.valueOf codec := by
  cases l with
  | none => rfl
  | some e =>
    rw [versionOf_some] at h
    rw [StateReplicator.resolved, if_neg fun hconflict => hconflict.2 h]

/-- A change that is not older than the stored entry wins. -/
theorem resolved_of_early {c : Change V} (h : ∀ e ∈ l, e.updatedAt ≤ c.tsOf) :
    (StateReplicator.resolved codec l c).1 = c.valueOf codec := by
  cases l with
  | none => rfl
  | some e =>
    rw [StateReplicator.resolved, StateReplicator.resolveConflict, if_pos (h e rfl)]
    split_ifs <;> rfl

/-- An entry has the value of the change that was taken last, read back when it was taken and at
each turn that came later and was not skipped. -/
theorem exists_taken {ts : List (Turn V)} {e : Entry V}
    (h : ts.foldl (after codec) none = some e) :
    ∃ p t q, ∃ n : ℕ, ts = p ++ t :: q ∧ versionOf (p.foldl (after codec) none) < t.1.versionOf ∧
      e.value = codec.readBack^[n+1] (t.1.valueOf codec) ∧
      e.version = versionOf (p.foldl (after codec) none)+1+n := by
  induction ts using List.reverseRecOn generalizing e with
  | nil => cases h
  | append_singleton ts u ih =>
    rw [List.foldl_append, List.foldl_cons, List.foldl_nil] at h
    by_cases hold : u.1.versionOf ≤ versionOf (ts.foldl (after codec) none)
    · rw [after_of_le hold] at h
      obtain ⟨p,t,q,n,rfl,hnew,hvalue,hversion⟩ := ih h
      exact ⟨p,t,q ++ [u],n,by simp,hnew,hvalue,hversion⟩
    · rw [not_le] at hold
      rw [after_of_lt hold, Option.some.injEq] at h
      subst h
      obtain htaken | ⟨e,he,hkept⟩ := resolved_or codec (ts.foldl (after codec) none) u.1
      · exact ⟨ts,u,[],0,rfl,hold,congrArg codec.readBack htaken,(add_zero _).symm⟩
      · obtain ⟨p,t,q,n,hsplit,hnew,hvalue,hversion⟩ := ih he
        refine ⟨p,t,q ++ [u],n+1,by rw [hsplit]; simp,hnew,?_,?_⟩
        · rw [hkept, hvalue, ← Function.iterate_succ_apply' codec.readBack (n+1)]
        · rw [he, versionOf_some, hversion]
          push_cast
          ring

/-- The stored version is then not below the changes that come after: fewer changes are above it
than it has steps. -/
theorem exists_taken_few {ts : List (Turn V)} {e : Entry V}
    (h : ts.foldl (after codec) none = some e) :
    ∃ t ∈ ts, 0 < t.1.versionOf ∧ ∃ n : ℕ,
      (ts.map fun u => u.1.versionOf).countP (t.1.versionOf+n < ·) < t.1.versionOf+n ∧
      e.value = codec.readBack^[n+1] (t.1.valueOf codec) := by
  obtain ⟨p,t,q,n,hsplit,hnew,hvalue,hversion⟩ := exists_taken h
  have hlast := @StateReplicator.versionOf_foldl_after _ codec ts none
  rw [h, versionOf_some, hversion] at hlast
  subst hsplit
  rw [StateReplicator.versionOf_foldl_after, versionOf_none] at hnew hlast
  rw [List.map_append, List.map_cons, climb_append, climb_cons_of_lt hnew] at hlast
  rw [List.map_append, List.map_cons]
  generalize (p.map fun u => u.1.versionOf) = rs at hnew hlast ⊢
  generalize (q.map fun u => u.1.versionOf) = rs' at hlast ⊢
  have hpos := le_climb 0 rs
  have hbefore : 0+rs.countP (t.1.versionOf+n < ·) ≤ climb 0 rs := countP_le_climb (by omega)
  have hlater : climb 0 rs+1+rs'.countP (t.1.versionOf+n < ·) ≤ climb (climb 0 rs+1) rs' :=
    countP_le_climb (by omega)
  refine ⟨t,by simp,by omega,n,?_,hvalue⟩
  rw [List.countP_append, List.countP_cons_of_neg (by simp)]
  push_cast
  omega

/-- Once there is an entry, there is one. -/
theorem isSome_foldl_after {ts : List (Turn V)}
    (h : l.isSome ∨ ∃ t ∈ ts, versionOf l < t.1.versionOf) :
    (ts.foldl (after codec) l).isSome := by
  induction ts generalizing l with
  | nil => simpa using h
  | cons t ts ih =>
    rw [List.foldl_cons]
    apply ih
    by_cases hold : t.1.versionOf ≤ versionOf l
    · rw [after_of_le hold]
      obtain hl | ⟨u,hu,hlater⟩ := h
      · exact Or.inl hl
      · obtain rfl | hu := List.mem_cons.mp hu
        · exact absurd hlater (not_lt.mpr hold)
        · exact Or.inr ⟨u,hu,hlater⟩
    · rw [after_of_lt (not_le.mp hold)]
      exact Or.inl rfl

/-- A highest version that is 1 or 2 is applied, and nothing that comes later is. -/
theorem foldl_after_of_le_two {t : Turn V} {p q : List (Turn V)} (hpos : 0 < t.1.versionOf)
    (htwo : t.1.versionOf ≤ 2) (hp : ∀ u ∈ p, u.1.versionOf < t.1.versionOf)
    (hq : ∀ u ∈ q, u.1.versionOf < t.1.versionOf) :
    ((p ++ t :: q).foldl (after codec) none).map Entry.value =
      some (codec.readBack (t.1.valueOf codec)) := by
  have hversion := @StateReplicator.versionOf_foldl_after _ codec p none
  rw [List.foldl_append, List.foldl_cons]
  generalize p.foldl (after codec) none = l at hversion
  have hlow : versionOf l ≤ t.1.versionOf-1 := by
    rw [hversion]
    refine climb_le (by rw [versionOf_none]; omega) fun r hr => ?_
    obtain ⟨u,hu,rfl⟩ := List.mem_map.mp hr
    have := hp u hu
    omega
  have hzero : 0 ≤ versionOf l := by
    rw [hversion]
    exact le_climb 0 _
  have hresolved : (StateReplicator.resolved codec l t.1).1 = t.1.valueOf codec := by
    cases l with
    | none => rfl
    | some e =>
      rw [versionOf_some] at hlow hzero
      rw [StateReplicator.resolved, if_neg (by omega)]
  rw [after_of_lt (by omega), foldl_after_of_le, hresolved]
  · rfl
  · intro u hu
    have := hq u hu
    change u.1.versionOf ≤ versionOf l+1
    omega

/-- Changes with a gap below each of them, made before the time of the replica's writes: each is
a conflict that the stored value wins, read back once more. -/
theorem foldl_after_of_gap {x : V} {now : ℚ} {ts : List (Turn V)}
    (hlate : ∀ t ∈ ts, t.1.tsOf < now ∧ t.2 = now)
    (hsorted : ts.Pairwise fun t u => t.1.versionOf < u.1.versionOf) {k : ℤ} (hpos : 0 < k)
    (hgap : ∀ t ∈ ts, k+2 ≤ t.1.versionOf) :
    ts.foldl (after codec) (some ⟨x,k,now⟩) =
      some ⟨codec.readBack^[ts.length] x,k+ts.length,now⟩ := by
  induction ts generalizing k x with
  | nil => simp
  | cons t ts ih =>
    obtain ⟨hlow,hsorted⟩ := List.pairwise_cons.mp hsorted
    obtain ⟨hgapt,hgap⟩ := List.forall_mem_cons.mp hgap
    obtain ⟨⟨hbefore,hnow⟩,hlate⟩ := List.forall_mem_cons.mp hlate
    have hresolved : (StateReplicator.resolved codec (some ⟨x,k,now⟩) t.1).1 = x := by
      have hconflict : 0 < k ∧ t.1.versionOf ≠ k+1 := ⟨hpos,by omega⟩
      rw [StateReplicator.resolved, if_pos hconflict, StateReplicator.resolveConflict,
        if_neg (not_le.mpr hbefore)]
    have hnew : versionOf (some (⟨x,k,now⟩ : Entry V)) < t.1.versionOf := by
      change k < t.1.versionOf
      omega
    have hstep : after codec (some ⟨x,k,now⟩) t = some ⟨codec.readBack x,k+1,now⟩ := by
      rw [after_of_lt hnew, hresolved, hnow]
      rfl
    have hgap' : ∀ u ∈ ts, k+1+2 ≤ u.1.versionOf := by
      intro u hu
      have := hlow u hu
      omega
    rw [List.foldl_cons, hstep, ih hlate hsorted (by omega) hgap', List.length_cons]
    congr 2
    push_cast
    ring

/-- A replica whose clock stands still has this time in all entries. -/
theorem updatedAt_foldl_after {now : ℚ} {ts : List (Turn V)} (h : ∀ t ∈ ts, t.2 = now)
    (hl : ∀ e ∈ l, e.updatedAt = now) : ∀ e ∈ ts.foldl (after codec) l, e.updatedAt = now := by
  induction ts generalizing l with
  | nil => exact hl
  | cons t ts ih =>
    obtain ⟨ht,hts⟩ := List.forall_mem_cons.mp h
    rw [List.foldl_cons]
    refine ih hts fun e he => ?_
    by_cases hold : t.1.versionOf ≤ versionOf l
    · rw [after_of_le hold] at he
      exact hl e he
    · rw [after_of_lt (not_le.mp hold)] at he
      rw [← Option.mem_some_iff.mp he]
      exact ht

end Entry

namespace StateReplicator
variable {V : Type*} {codec : JsonCodec V} {cs : ChangeSet V}

theorem exists_highest {ns key : String} {c : Change V} (hc : c ∈ cs.changes)
    (hfor : c.IsFor ns key) : ∃ c, cs.Highest ns key c := by
  have hmem : c ∈ cs.changes.filter fun c => c.IsFor ns key := by simp [hc, hfor]
  cases hmax : (cs.changes.filter fun c => c.IsFor ns key).argmax Change.versionOf with
  | none =>
    rw [List.argmax_eq_none.mp hmax] at hmem
    cases hmem
  | some m =>
    have hm := List.argmax_mem hmax
    rw [List.mem_filter, decide_eq_true_iff] at hm
    refine ⟨m,hm.1,hm.2,fun d hd hdfor => ?_⟩
    exact List.le_of_mem_argmax (by simp [hd, hdfor]) hmax

theorem Delivers.versions_perm {batches : List (List (Turn V))} (h : Delivers batches cs)
    (ns key : String) :
    ((about ns key batches.flatten).map fun t => t.1.versionOf).Perm
      (versionsAbout cs.changes ns key) := by
  rw [map_about]
  exact (h.1.filter _).map _

theorem Delivers.nodup {batches : List (List (Turn V))} (h : Delivers batches cs)
    (ns key : String) :
    ((about ns key batches.flatten).map fun t => t.1.versionOf).Nodup :=
  (h.versions_perm ns key).nodup_iff.mpr (cs.distinct ns key)

/-- A settled set leaves the value of the highest version, in any order. -/
theorem Settled.value (h : Settled codec cs)
    {batches : List (List (Turn V))} (hd : Delivers batches cs) {ns key : String} {c : Change V}
    (hc : cs.Highest ns key c) :
    ((about ns key batches.flatten).foldl (Entry.after codec) none).map Entry.value =
      some (c.valueOf codec) := by
  obtain ⟨hpos,hread,hcase⟩ := h ns key c hc
  obtain ⟨hmem,hfor,hhigh⟩ := hc
  have hperm := hd.about_perm ns key
  have hturn : ∀ t ∈ about ns key batches.flatten, t.1 ∈ cs.changes ∧ t.1.IsFor ns key := by
    intro t ht
    have := hperm.subset (List.mem_map_of_mem ht)
    simpa using this
  obtain ⟨t,ht,rfl⟩ : ∃ t ∈ about ns key batches.flatten, t.1 = c :=
    List.mem_map.mp (hperm.symm.subset (by simp [hmem, hfor]))
  obtain htwo | hsame := hcase
  · obtain ⟨p,q,hsplit⟩ := List.append_of_mem ht
    have hlower : ∀ u ∈ p ++ q, u.1.versionOf < t.1.versionOf := by
      intro u hu
      have hu' : u ∈ about ns key batches.flatten := by
        rw [hsplit]
        exact (List.perm_middle.symm.subset (List.mem_cons_of_mem _ hu))
      obtain ⟨humem,hufor⟩ := hturn u hu'
      refine lt_of_le_of_ne (hhigh u.1 humem hufor) fun heq => ?_
      have hnodup := hd.nodup ns key
      rw [hsplit, List.map_append, List.map_cons, List.nodup_middle, ← List.map_append] at hnodup
      exact (List.nodup_cons.mp hnodup).1 (heq ▸ List.mem_map_of_mem hu)
    rw [hsplit, Entry.foldl_after_of_le_two (by omega) htwo
      (fun u hu => hlower u (List.mem_append_left q hu))
      fun u hu => hlower u (List.mem_append_right p hu), hread]
  · have hsome : ((about ns key batches.flatten).foldl (Entry.after codec) none).isSome :=
      Entry.isSome_foldl_after (Or.inr ⟨t,ht,hpos⟩)
    obtain ⟨e,he⟩ := Option.isSome_iff_exists.mp hsome
    obtain ⟨u,hu,hupos,n,hfew,hvalue⟩ := Entry.exists_taken_few he
    obtain ⟨humem,hufor⟩ := hturn u hu
    rw [(hd.versions_perm ns key).countP_eq] at hfew
    rw [he, Option.map_some, hvalue, hsame u.1 humem hufor hupos n hfew]

theorem Settled.converges (h : Settled codec cs) : Converges codec cs := by
  intro r r' hr hr' batches batches' hd hd' ns key
  rw [value?_applyAll hr, value?_applyAll hr']
  refine ⟨?_,fun c hc => h.value hd hc⟩
  by_cases hnone : (cs.changes.filter fun c => c.IsFor ns key) = []
  · have habout : ∀ batches, Delivers batches cs → about ns key batches.flatten = [] := by
      intro batches hd
      have hperm := hd.about_perm ns key
      rw [hnone] at hperm
      exact List.map_eq_nil_iff.mp hperm.eq_nil
    rw [habout _ hd, habout _ hd']
  · obtain ⟨c,hc⟩ := List.exists_mem_of_ne_nil _ hnone
    rw [List.mem_filter, decide_eq_true_iff] at hc
    obtain ⟨m,hm⟩ := exists_highest hc.1 hc.2
    rw [h.value hd hm, h.value hd' hm]

/-- All changes in one batch, at one time. -/
def atOnce (now : ℚ) (order : List (Change V)) : List (Turn V) := order.map fun c => (c,now)

theorem delivers_atOnce {order : List (Change V)} (h : order.Perm cs.changes) (now : ℚ) :
    Delivers [atOnce now order] cs := by
  rw [Delivers, List.flatten_singleton, atOnce, List.map_map, List.map_map]
  refine ⟨?_,?_⟩
  · exact (List.Perm.of_eq (List.map_id order)).trans h
  · rw [List.pairwise_map]
    exact List.pairwise_of_forall fun _ _ => le_rfl

theorem about_atOnce (now : ℚ) (order : List (Change V)) (ns key : String) :
    about ns key (atOnce now order) = atOnce now (order.filter fun c => c.IsFor ns key) := by
  rw [about, atOnce, List.filter_map, atOnce]
  rfl

theorem Converges.value_order (h : Converges codec cs) {order : List (Change V)}
    (hperm : order.Perm cs.changes) (now : ℚ) {ns key : String} {c : Change V}
    (hc : cs.Highest ns key c) :
    ((atOnce now (order.filter fun c => c.IsFor ns key)).foldl (Entry.after codec) none).map
      Entry.value = some (c.valueOf codec) := by
  have hvalue := (h {} {} rfl rfl _ _ (delivers_atOnce hperm now) (delivers_atOnce hperm now)
    ns key).2 c hc
  rwa [value?_applyAll rfl, List.flatten_singleton, about_atOnce] at hvalue

/-- What the changes of a key leave in some order, at one time. -/
theorem Converges.value_key (h : Converges codec cs) {ns key : String} {l : List (Change V)}
    (hl : l.Perm (cs.changes.filter fun e => e.IsFor ns key)) (now : ℚ) {c : Change V}
    (hc : cs.Highest ns key c) :
    ((atOnce now l).foldl (Entry.after codec) none).map Entry.value = some (c.valueOf codec) := by
  have hothers : (l ++ cs.changes.filter fun e => !decide (e.IsFor ns key)).Perm cs.changes :=
    (hl.append_right _).trans (List.filter_append_perm _ _)
  have hvalue := h.value_order hothers now hc
  rw [List.filter_append, List.filter_eq_self.mpr, List.filter_eq_nil_iff.mpr, List.append_nil]
    at hvalue
  · exact hvalue
  · intro e he
    simpa using (List.mem_filter.mp he).2
  · intro e he
    exact (List.mem_filter.mp (hl.subset he)).2

/-- A time after all changes were made. -/
theorem exists_late (changes : List (Change V)) : ∃ now : ℚ, ∀ c ∈ changes, c.tsOf < now := by
  refine ⟨(changes.map Change.tsOf).foldr max 0+1,fun c hc => ?_⟩
  have hle := List.le_max_of_le' (0 : ℚ) (List.mem_map_of_mem (f := Change.tsOf) hc) le_rfl
  linarith

/-- A time before all changes were made. -/
theorem exists_early (changes : List (Change V)) : ∃ now : ℚ, ∀ c ∈ changes, now ≤ c.tsOf := by
  induction changes with
  | nil => exact ⟨0,by simp⟩
  | cons c changes ih =>
    obtain ⟨now,hnow⟩ := ih
    refine ⟨min now c.tsOf,List.forall_mem_cons.mpr ⟨min_le_right _ _,fun d hd => ?_⟩⟩
    exact (min_le_left _ _).trans (hnow d hd)

theorem Converges.pos (h : Converges codec cs) {ns key : String} {c : Change V}
    (hc : cs.Highest ns key c) : 1 ≤ c.versionOf := by
  by_contra hle
  have hvalue := h.value_key (List.Perm.refl _) 0 hc
  rw [Entry.foldl_after_of_le] at hvalue
  · cases hvalue
  · intro t ht
    obtain ⟨d,hd,rfl⟩ := List.mem_map.mp ht
    rw [List.mem_filter, decide_eq_true_iff] at hd
    have hhigh := hc.2.2 d hd.1 hd.2
    rw [Entry.versionOf_none]
    change d.versionOf ≤ 0
    omega

/-- Changes with distinct versions, in the order of these. -/
theorem exists_sorted (l : List (Change V)) (h : (l.map Change.versionOf).Nodup) :
    ∃ l' : List (Change V), l'.Perm l ∧ l'.Pairwise fun c d => c.versionOf < d.versionOf := by
  have hperm := l.mergeSort_perm fun c d => c.versionOf ≤ d.versionOf
  refine ⟨_,hperm,?_⟩
  have hle := @List.pairwise_mergeSort _ (fun c d : Change V => c.versionOf ≤ d.versionOf)
    (fun a b c hab hbc => by simp at hab hbc ⊢; omega) (fun a b => by simp; omega) l
  have hne := List.pairwise_map.mp (((hperm.map Change.versionOf).nodup_iff).mpr h)
  refine (hle.and hne).imp fun hcd => ?_
  obtain ⟨hcd,hne⟩ := hcd
  exact lt_of_le_of_ne (by simpa using hcd) hne

/-- The other changes of the key of a change: those with versions above `x`, which rise, and those
with lower ones. -/
theorem exists_keyOrder {ns key : String} {d : Change V} (hd : d ∈ cs.changes)
    (hfor : d.IsFor ns key) {x : ℤ} (hx : d.versionOf ≤ x) :
    ∃ later early : List (Change V),
      (d :: (later ++ early)).Perm (cs.changes.filter fun e => e.IsFor ns key) ∧
      (later.Pairwise fun e e' => e.versionOf < e'.versionOf) ∧
      (∀ e ∈ later, x < e.versionOf) ∧ (∀ e ∈ early, e.versionOf ≤ x ∧ e.versionOf ≠ d.versionOf) ∧
      later.length = (versionsAbout cs.changes ns key).countP (x < ·) := by
  obtain ⟨p,q,hsplit⟩ : ∃ p q, (cs.changes.filter fun e => e.IsFor ns key) = p ++ d :: q :=
    List.append_of_mem (by simp [hd, hfor])
  have hperm : (cs.changes.filter fun e => e.IsFor ns key).Perm (d :: (p ++ q)) := by
    rw [hsplit]
    exact List.perm_middle
  have hversions : (versionsAbout cs.changes ns key).Perm
      (d.versionOf :: (p ++ q).map Change.versionOf) := hperm.map Change.versionOf
  obtain ⟨hdnew,hnodup⟩ := List.nodup_cons.mp (hversions.nodup_iff.mp (cs.distinct ns key))
  obtain ⟨later,hlater,hsorted⟩ := exists_sorted ((p ++ q).filter fun e => x < e.versionOf)
    (hnodup.sublist (List.filter_sublist.map _))
  refine ⟨later,(p ++ q).filter fun e => !decide (x < e.versionOf),?_,hsorted,?_,?_,?_⟩
  · exact (((hlater.append_right _).trans (List.filter_append_perm _ _)).cons d).trans hperm.symm
  · intro e he
    exact of_decide_eq_true (List.mem_filter.mp (hlater.subset he)).2
  · intro e he
    obtain ⟨hin,hlow⟩ := List.mem_filter.mp he
    rw [Bool.not_eq_true', decide_eq_false_iff_not, not_lt] at hlow
    exact ⟨hlow,fun heq => hdnew (heq ▸ List.mem_map_of_mem hin)⟩
  · rw [hlater.length_eq, hversions.countP_eq, List.countP_cons_of_neg (by simpa using hx),
      List.countP_map, List.countP_eq_length_filter]
    rfl

/-- If fewer changes are above a change than it has steps, the change can come last, after the
higher ones and all others; it is taken when the replica writes early. -/
theorem Converges.last (h : Converges codec cs) {ns key : String} {c d : Change V}
    (hc : cs.Highest ns key c) (hd : d ∈ cs.changes) (hfor : d.IsFor ns key)
    (hfew : (versionsAbout cs.changes ns key).countP (d.versionOf < ·) < d.versionOf) :
    codec.readBack (d.valueOf codec) = c.valueOf codec := by
  obtain ⟨now,hnow⟩ := exists_early cs.changes
  obtain ⟨later,early,hkey,-,-,hearly,hlength⟩ := exists_keyOrder hd hfor le_rfl
  have hlast : ((later ++ early) ++ [d]).Perm (cs.changes.filter fun e => e.IsFor ns key) :=
    List.perm_append_comm.trans hkey
  have hvalue := h.value_key hlast now hc
  have htime := @Entry.updatedAt_foldl_after _ codec none now (atOnce now (later ++ early))
    (fun t ht => by obtain ⟨e,-,rfl⟩ := List.mem_map.mp ht; rfl) (by simp)
  have hlevel := @versionOf_foldl_after _ codec (atOnce now (later ++ early)) none
  rw [atOnce, List.map_append, List.foldl_append] at hvalue
  change ((List.foldl (Entry.after codec) ((atOnce now (later ++ early)).foldl _ none)
    [(d,now)]).map _) = _ at hvalue
  generalize (atOnce now (later ++ early)).foldl (Entry.after codec) none = l at hvalue htime hlevel
  have hlow : Entry.versionOf l < d.versionOf := by
    rw [hlevel, atOnce, List.map_map, List.map_append, climb_append]
    refine Int.lt_of_le_sub_one (climb_le ?_ fun r hr => ?_)
    · refine (climb_le_length _ _).trans ?_
      rw [List.length_map, Entry.versionOf_none]
      omega
    · obtain ⟨e,he,rfl⟩ := List.mem_map.mp hr
      obtain ⟨hle,hne⟩ := hearly e he
      change e.versionOf ≤ d.versionOf-1
      omega
  rw [List.foldl_cons, List.foldl_nil, Entry.after_of_lt hlow, Entry.resolved_of_early] at hvalue
  · exact Option.some.inj hvalue
  · intro e he
    rw [htime e he]
    exact hnow d hd

/-- Changes with rising versions, all above `x`: those from the `k`th on are higher by `k`. -/
theorem lt_of_mem_drop {x : ℤ} {l : List (Change V)}
    (hsorted : l.Pairwise fun c d => c.versionOf < d.versionOf) (h : ∀ c ∈ l, x < c.versionOf)
    (k : ℕ) : ∀ c ∈ l.drop k, x+k < c.versionOf := by
  induction k generalizing x l with
  | zero => simpa using h
  | succ k ih =>
    cases l with
    | nil => simp
    | cons d l =>
      obtain ⟨hlow,hsorted⟩ := List.pairwise_cons.mp hsorted
      have hd := h d List.mem_cons_self
      intro c hc
      have := ih (x := x+1) hsorted (fun e he => by have := hlow e he; omega) c hc
      push_cast
      omega

/-- Changes that are all newer than their number are all written. -/
theorem versionOf_of_high (codec : JsonCodec V) (now : ℚ) {l : List (Change V)}
    (h : ∀ c ∈ l, (l.length : ℤ) ≤ c.versionOf) :
    Entry.versionOf ((atOnce now l).foldl (Entry.after codec) none) = l.length := by
  rw [versionOf_foldl_after, atOnce, List.map_map, climb_of_high]
  · rw [List.length_map, Entry.versionOf_none, zero_add]
  · intro r hr
    obtain ⟨c,hc,rfl⟩ := List.mem_map.mp hr
    rw [List.length_map, Entry.versionOf_none, zero_add]
    exact h c hc

/-- As many later changes can come around a change that the stored version reaches its own with
those before it and goes up by `n+1` with those after it: each of the latter is a conflict that
the value of the change wins when the replica writes late. -/
theorem Converges.kept (h : Converges codec cs) {ns key : String} {c d : Change V}
    (hc : cs.Highest ns key c) (hthree : 2 < c.versionOf) (hd : d ∈ cs.changes)
    (hfor : d.IsFor ns key) (hpos : 1 ≤ d.versionOf) {n : ℕ} {x : ℤ}
    (hx : d.versionOf+n ≤ x ∧ x ≤ d.versionOf+n+1)
    (hcount : ((versionsAbout cs.changes ns key).countP (x < ·) : ℤ) = d.versionOf+n) :
    codec.readBack^[n+2] (d.valueOf codec) = c.valueOf codec := by
  obtain ⟨now,hnow⟩ := exists_late cs.changes
  obtain ⟨later,early,hkey,hsorted,hlater,hearly,hlength⟩ :=
    exists_keyOrder hd hfor (x := x) (by omega)
  obtain ⟨k,hk⟩ : ∃ k : ℕ, d.versionOf = k+1 := ⟨(d.versionOf-1).toNat,by omega⟩
  have hlater_length : later.length = k+(n+1) := by omega
  have hlater_high : ∀ e ∈ later.drop k, (k : ℤ)+1+2 ≤ e.versionOf := by
    intro e he
    have hdrop := lt_of_mem_drop hsorted hlater k e he
    by_cases hone : k+n = 0
    · -- one change comes after `d`, the highest
      obtain ⟨y,hy⟩ := List.length_eq_one_iff.mp (show later.length = 1 by omega)
      have hckey : c ∈ cs.changes.filter fun e => e.IsFor ns key := by simp [hc.1, hc.2.1]
      have hclater : c ∈ later := by
        obtain rfl | hin := List.mem_cons.mp (hkey.symm.subset hckey)
        · omega
        · refine (List.mem_append.mp hin).resolve_right fun hlow => ?_
          have := (hearly c hlow).1
          omega
      have hey : e ∈ later := List.mem_of_mem_drop he
      rw [hy, List.mem_singleton] at hclater hey
      rw [hey, ← hclater]
      omega
    · omega
  -- the first `k` come before `d`, the other `n+1` after it
  have horder : (later.take k ++ d :: (later.drop k ++ early)).Perm
      (cs.changes.filter fun e => e.IsFor ns key) := by
    refine List.perm_middle.trans ?_
    rw [← List.append_assoc, List.take_append_drop]
    exact hkey
  have hbefore : Entry.versionOf ((atOnce now (later.take k)).foldl (Entry.after codec) none) =
      k := by
    have htake : (later.take k).length = k := List.length_take_of_le (by omega)
    rw [versionOf_of_high codec now fun e he => ?_, htake]
    have := hlater e (List.mem_of_mem_take he)
    omega
  have htaken : Entry.after codec ((atOnce now (later.take k)).foldl (Entry.after codec) none)
      (d,now) = some ⟨codec.readBack (d.valueOf codec),k+1,now⟩ := by
    rw [Entry.after_of_lt, Entry.resolved_of_next, hbefore]
    · exact hk.trans (congrArg (· + 1) hbefore.symm)
    · change _ < d.versionOf
      omega
  have hafter : (atOnce now (later.drop k)).foldl (Entry.after codec)
      (some ⟨codec.readBack (d.valueOf codec),k+1,now⟩) =
      some ⟨codec.readBack^[n+1] (codec.readBack (d.valueOf codec)),k+1+(n+1 : ℕ),now⟩ := by
    have hdrop : (atOnce now (later.drop k)).length = n+1 := by
      rw [atOnce, List.length_map, List.length_drop]
      omega
    rw [← hdrop]
    refine Entry.foldl_after_of_gap (fun t ht => ?_) ?_ (by omega) fun t ht => ?_
    · obtain ⟨e,he,rfl⟩ := List.mem_map.mp ht
      have hin := hkey.subset (List.mem_cons_of_mem d
        (List.mem_append_left early (List.mem_of_mem_drop he)))
      exact ⟨hnow e (List.mem_of_mem_filter hin),rfl⟩
    · exact List.pairwise_map.mpr (hsorted.sublist (List.drop_sublist _ _))
    · obtain ⟨e,he,rfl⟩ := List.mem_map.mp ht
      exact hlater_high e he
  have hvalue := h.value_key horder now hc
  have hmap : atOnce now (later.take k ++ d :: (later.drop k ++ early)) =
      atOnce now (later.take k) ++ (d,now) :: (atOnce now (later.drop k) ++ atOnce now early) := by
    simp only [atOnce, List.map_append, List.map_cons]
  rw [hmap, List.foldl_append, List.foldl_cons, htaken, List.foldl_append, hafter,
    Entry.foldl_after_of_le] at hvalue
  · exact Option.some.inj hvalue
  · intro t ht
    obtain ⟨e,he,rfl⟩ := List.mem_map.mp ht
    have := (hearly e he).1
    change e.versionOf ≤ (k : ℤ)+1+(n+1 : ℕ)
    push_cast
    omega

theorem Converges.settled (h : Converges codec cs) : Settled codec cs := by
  intro ns key c hc
  have hpos := h.pos hc
  have hnodup := cs.distinct ns key
  have hread : codec.readBack (c.valueOf codec) = c.valueOf codec := by
    refine h.last hc hc.1 hc.2.1 ?_
    rw [List.countP_eq_zero.mpr]
    · omega
    · intro r hr
      obtain ⟨e,he,rfl⟩ := List.mem_map.mp hr
      rw [List.mem_filter, decide_eq_true_iff] at he
      have := hc.2.2 e he.1 he.2
      simpa using this
  refine ⟨hpos,hread,?_⟩
  by_cases htwo : c.versionOf ≤ 2
  · exact Or.inl htwo
  · refine Or.inr fun d hd hfor hdpos n hn => ?_
    -- what is read back more often than the least number of times is read back as itself
    induction n with
    | zero => exact h.last hc hd hfor (by simpa using hn)
    | succ n ih =>
      by_cases hfewer :
          (versionsAbout cs.changes ns key).countP (d.versionOf+n < ·) < d.versionOf+n
      · rw [Function.iterate_succ_apply', ih hfewer, hread]
      · have hsucc := countP_le_succ hnodup (d.versionOf+n)
        push_cast at hn
        rw [← add_assoc] at hn
        by_cases hmany : ((versionsAbout cs.changes ns key).countP (d.versionOf+n < ·) : ℤ) =
            d.versionOf+n
        · exact h.kept hc (by omega) hd hfor hdpos ⟨le_rfl,by omega⟩ hmany
        · refine h.kept hc (by omega) hd hfor hdpos (x := d.versionOf+n+1) ⟨by omega,le_rfl⟩ ?_
          omega

/-- Without values that change when they are read back twice, all values with positive versions
must read back as the one of the highest version. -/
theorem settled_iff_of_stable (hstable : Stable codec cs) :
    Settled codec cs ↔ ∀ ns key c, cs.Highest ns key c →
      1 ≤ c.versionOf ∧ codec.readBack (c.valueOf codec) = c.valueOf codec ∧
        (c.versionOf ≤ 2 ∨ ∀ d ∈ cs.changes, d.IsFor ns key → 1 ≤ d.versionOf →
          codec.readBack (d.valueOf codec) = c.valueOf codec) := by
  have hiterate : ∀ d ∈ cs.changes, ∀ n : ℕ,
      codec.readBack^[n+1] (d.valueOf codec) = codec.readBack (d.valueOf codec) := by
    intro d hd n
    induction n with
    | zero => rfl
    | succ n ih => rw [Function.iterate_succ_apply', ih, hstable d hd]
  refine forall₄_congr fun ns key c _ => and_congr_right' (and_congr_right' (or_congr_right ?_))
  constructor
  · intro h d hd hfor hpos
    rw [← hiterate d hd (versionsAbout cs.changes ns key).length]
    refine h d hd hfor hpos _ (lt_of_le_of_lt (Int.ofNat_le.mpr List.countP_le_length) ?_)
    omega
  · intro h d hd hfor hpos n _
    rw [hiterate d hd, h d hd hfor hpos]

/-- A set of changes converges exactly when it is settled. -/
theorem converges_iff_settled (codec : JsonCodec V) (cs : ChangeSet V) :
    Converges codec cs ↔ Settled codec cs :=
  ⟨Converges.settled,Settled.converges⟩

/-- A version of the key `k`, its number for a value and a timestamp. -/
def numbered (n : ℕ) : Change Json :=
  { ns := some "n", key := some "k", value := some (.int n), version := some n, ts := some n }

/-- Three versions of one key. -/
def threeVersions : ChangeSet Json where
  changes := [numbered 1,numbered 2,numbered 3]
  distinct ns key := by
    have hall : ([numbered 1,numbered 2,numbered 3].map Change.versionOf).Nodup := by decide
    exact hall.sublist (List.filter_sublist.map _)
  increasing ns key c hc d hd _ _ h := by
    have hts : ∀ e ∈ [numbered 1,numbered 2,numbered 3], e.tsOf = e.versionOf := by
      simp [numbered, Change.tsOf, Change.versionOf]
    rw [hts c hc, hts d hd]
    exact_mod_cast h

theorem not_converges_threeVersions : ¬ ∀ cs : ChangeSet Json, Converges jsonCodec cs := by
  intro h
  have hperm : [numbered 1,numbered 3,numbered 2].Perm threeVersions.changes :=
    (List.Perm.swap _ _ _).cons _
  have hdelivers := delivers_atOnce hperm 10
  obtain ⟨-,hhighest⟩ := h threeVersions {} {} rfl rfl _ _ hdelivers hdelivers "n" "k"
  have hthree := hhighest (numbered 3) ⟨by simp [threeVersions],by decide,by
    simp [threeVersions, numbered, Change.versionOf]⟩
  have hone : (value? jsonCodec (applyAll jsonCodec {}
      [atOnce 10 [numbered 1,numbered 3,numbered 2]]) "n" "k").bind Json.asInt = some 1 := by
    decide +kernel
  rw [hthree] at hone
  cases hone

end StateReplicator
end Arsonist.GlobalControl
