import Arsonist.Library.Runs
import Arsonist.Library.SessionLock

/-! Leadership by an advisory lock (`PostgresLockCoordinator` of
`control_plane/coordinator.py`). The lock lives in a session of the database, and
`is_leader()` answers from a flag that is assigned from one poll to the next. -/
namespace Arsonist.ControlPlane.Coordinator
open Arsonist.Library

/-- A session is known by the replica that opened it and a serial number. -/
structure Session (ι : Type) where
  owner : ι
  serial : ℕ
  deriving DecidableEq

/-- The client's end of a session. -/
structure Connection where
  serial : ℕ
  closed : Bool := false

/-- Where a replica stands: before `start`, in `start`, in `_loop`, in one of the two calls of
`_release`, or behind it. The calls of `_release` are told apart by whether the loop is left. -/
inductive Point
  | created
  | starting (ok : Bool)
  | looping
  | polling
  | polled (ok : Bool)
  | releasing (leaving : Bool)
  | closing (leaving : Bool)
  | waiting
  | clearing
  | ended
  deriving DecidableEq

structure Replica where
  isLeader : Bool := false
  conn : Option Connection := none
  stop : Bool := false
  wasLeader : Bool := false
  opened : ℕ := 0
  point : Point := .created

/-- What becomes of a call to the database: whether a connection can be opened, whether the
request reaches the server, whether its answer comes back, and whether the client finds its
connection closed after an exception. -/
structure Network where
  connects : Bool := true
  reaches : Bool := true
  answers : Bool := true
  breaks : Bool := false

/-- Any number of replicas, and the server with its live sessions. -/
structure System {ι : Type} (lock : SessionLock (Session ι)) where
  replica : ι → Replica := fun _ => {}
  advisory : lock.State := lock.init
  live : List (Session ι) := []

/-- A step of a replica's thread, a request to stop, or the end of a session at the server. -/
inductive Event (ι : Type)
  | advance (i : ι) (net : Network)
  | stop (i : ι)
  | lose (k : Session ι)

namespace System
variable {ι : Type} [DecidableEq ι] {lock : SessionLock (Session ι)}

def update (s : System lock) (i : ι) (f : Replica → Replica) : System lock :=
  { s with replica := Function.update s.replica i (f (s.replica i)) }

def goto (s : System lock) (i : ι) (point : Point) : System lock :=
  s.update i fun r => { r with point := point }

/-- An exception may leave the client's connection closed. -/
def raising (s : System lock) (i : ι) (net : Network) : System lock :=
  s.update i fun r => { r with conn := r.conn.map fun c => { c with closed := c.closed || net.breaks } }

/-- `psycopg.connect`. -/
def connect (s : System lock) (i : ι) : System lock :=
  { s.update i fun r =>
      { r with conn := some { serial := r.opened }, opened := r.opened+1 } with
    live := s.live ++ [⟨i,(s.replica i).opened⟩] }

/-- `_ensure_conn`: the session to use, unless connecting raises. -/
def ensureConn (s : System lock) (i : ι) (net : Network) : System lock × Option (Session ι) :=
  let open? := if net.connects then (s.connect i,some ⟨i,(s.replica i).opened⟩) else (s,none)
  match (s.replica i).conn with
  | none => open?
  | some c => if c.closed then open? else (s,some ⟨i,c.serial⟩)

/-- `_try_acquire`: the answer, unless it raises. -/
def tryAcquire (s : System lock) (i : ι) (net : Network) : System lock × Option Bool :=
  match s.ensureConn i net with
  | (t,none) => (t,none)
  | (t,some k) =>
    if k ∈ t.live ∧ net.reaches then
      let asked := lock.tryAcquire t.advisory k
      let u := { t with advisory := asked.1 }
      if net.answers then (u,some asked.2) else (u.raising i net,none)
    else (t.raising i net,none)

/-- The session of a connection that is still open, as far as the client knows. -/
def openSession (s : System lock) (i : ι) : Option (Session ι) :=
  match (s.replica i).conn with
  | none => none
  | some c => if c.closed then none else some ⟨i,c.serial⟩

/-- The first half of `_release`. -/
def unlock (s : System lock) (i : ι) (k : Session ι) (net : Network) : System lock :=
  if k ∈ s.live ∧ net.reaches then
    let t := { s with advisory := lock.release s.advisory k }
    if net.answers then t else t.raising i net
  else s.raising i net

/-- The server ends a session. -/
def endSession (s : System lock) (k : Session ι) : System lock :=
  if k ∈ s.live then
    { s with advisory := lock.endSession s.advisory k, live := s.live.erase k }
  else s

/-- The second half of `_release`. The server may be slow to notice. -/
def close (s : System lock) (i : ι) (net : Network) : System lock :=
  let t :=
    match s.openSession i with
    | none => s
    | some k => if net.reaches then s.endSession k else s
  t.update i fun r => { r with conn := none }

/-- Where `_release` returns to. -/
def returning (leaving : Bool) : Point := if leaving then .clearing else .waiting

def assign (s : System lock) (i : ι) (ok : Bool) : System lock :=
  s.update i fun r => { r with isLeader := ok }

/-- The next step of a replica's thread. -/
def advance (s : System lock) (i : ι) (net : Network) : System lock :=
  match (s.replica i).point with
  | .created =>
    match s.tryAcquire i net with
    | (t,some ok) => t.goto i (.starting ok)
    | (t,none) => t.goto i .looping
  | .starting ok => (s.assign i ok).goto i .looping
  | .looping => s.goto i (if (s.replica i).stop then .releasing true else .polling)
  | .polling =>
    match s.tryAcquire i net with
    | (t,some ok) => t.goto i (.polled ok)
    | (t,none) => t.goto i (.polled false)
  | .polled ok =>
    let stepsDown := !ok && (s.replica i).wasLeader
    ((s.assign i ok).update i fun r => { r with wasLeader := ok }).goto i
      (if stepsDown then .releasing false else .waiting)
  | .releasing leaving =>
    match s.openSession i with
    | none => s.goto i (returning leaving)
    | some k => (s.unlock i k net).goto i (.closing leaving)
  | .closing leaving => (s.close i net).goto i (returning leaving)
  | .waiting => s.goto i (if (s.replica i).stop then .releasing true else .looping)
  | .clearing => (s.assign i false).goto i .ended
  | .ended => s

def step (s : System lock) : Event ι → System lock
  | .advance i net => s.advance i net
  | .stop i => s.update i fun r => { r with stop := true }
  | .lose k => s.endSession k

/-- `is_leader()`. -/
def isLeader (s : System lock) (i : ι) : Bool := (s.replica i).isLeader

/-! ### Who may take itself for the leader -/

end System

/-- The replica takes itself for the leader, or is about to: a positive answer waits to be
assigned. -/
def Replica.Claims (r : Replica) : Prop :=
  r.isLeader = true ∨ r.point = .starting true ∨ r.point = .polled true

instance (r : Replica) : Decidable r.Claims := inferInstanceAs (Decidable (_ ∨ _ ∨ _))

/-- The replica is in `_release`, or behind the loop. -/
def Point.Retiring : Point → Prop
  | .releasing _ | .closing _ | .clearing | .ended => True
  | _ => False

namespace System
variable {ι : Type} [DecidableEq ι] {lock : SessionLock (Session ι)}

/-- A replica that may take itself for the leader has the lock, in one of its sessions; one
that gives it back no longer does. -/
structure Sound (s : System lock) : Prop where
  held : ∀ i, (s.replica i).Claims → ∃ n, lock.holder s.advisory = some ⟨i,n⟩
  quiet : ∀ i, (s.replica i).point.Retiring → (s.replica i).isLeader = false

/-- From `s` to `t` at most the replica `i` changes, and the lock is not taken from another
one. -/
structure Local (i : ι) (s t : System lock) : Prop where
  replica : ∀ j, j ≠ i → t.replica j = s.replica j
  holder : ∀ j n, j ≠ i → lock.holder s.advisory = some ⟨j,n⟩ →
    lock.holder t.advisory = some ⟨j,n⟩

/-- What a replica's calls to the database do: its flag and its place in the code stay, and so
does the lock if it is held. -/
structure Calls (i : ι) (s t : System lock) : Prop extends Local i s t where
  isLeader : (t.replica i).isLeader = (s.replica i).isLeader
  point : (t.replica i).point = (s.replica i).point
  kept : ∀ k, lock.holder s.advisory = some k → lock.holder t.advisory = some k

section
variable {i : ι} {s t u : System lock}

omit [DecidableEq ι] in
theorem Local.refl (i : ι) (s : System lock) : Local i s s := ⟨fun _ _ => rfl,fun _ _ _ h => h⟩

omit [DecidableEq ι] in
theorem Local.trans (hst : Local i s t) (htu : Local i t u) : Local i s u :=
  ⟨fun j hj => (htu.replica j hj).trans (hst.replica j hj),
    fun j n hj h => htu.holder j n hj (hst.holder j n hj h)⟩

omit [DecidableEq ι] in
theorem Calls.refl (i : ι) (s : System lock) : Calls i s s :=
  ⟨.refl i s,rfl,rfl,fun _ h => h⟩

omit [DecidableEq ι] in
theorem Calls.trans (hst : Calls i s t) (htu : Calls i t u) : Calls i s u :=
  ⟨hst.toLocal.trans htu.toLocal,htu.isLeader.trans hst.isLeader,htu.point.trans hst.point,
    fun k h => htu.kept k (hst.kept k h)⟩

theorem replica_update (f : Replica → Replica) (j : ι) :
    (s.update i f).replica j = if j = i then f (s.replica i) else s.replica j := by
  rw [update]
  exact Function.update_apply _ _ _ _

theorem local_update (s : System lock) (i : ι) (f : Replica → Replica) :
    Local i s (s.update i f) :=
  ⟨fun j hj => (replica_update f j).trans (if_neg hj),fun _ _ _ h => h⟩

theorem calls_update (s : System lock) (i : ι) {f : Replica → Replica}
    (hflag : ∀ r, (f r).isLeader = r.isLeader) (hpoint : ∀ r, (f r).point = r.point) :
    Calls i s (s.update i f) := by
  refine ⟨local_update s i f,?_,?_,fun _ h => h⟩
  · rw [replica_update, if_pos rfl, hflag]
  · rw [replica_update, if_pos rfl, hpoint]

theorem calls_raising (s : System lock) (i : ι) (net : Network) : Calls i s (s.raising i net) :=
  calls_update s i (fun _ => rfl) fun _ => rfl

theorem calls_connect (s : System lock) (i : ι) : Calls i s (s.connect i) := by
  have h := calls_update s i (f := fun r =>
    { r with conn := some { serial := r.opened }, opened := r.opened+1 }) (fun _ => rfl)
    fun _ => rfl
  exact ⟨⟨h.replica,h.holder⟩,h.isLeader,h.point,h.kept⟩

theorem calls_ensureConn (s : System lock) (i : ι) (net : Network) :
    Calls i s (s.ensureConn i net).1 := by
  unfold ensureConn
  dsimp only
  split
  · split_ifs
    · exact calls_connect s i
    · exact .refl i s
  · split_ifs
    · exact calls_connect s i
    · exact .refl i s
    · exact .refl i s

/-- A replica connects to sessions of its own only. -/
theorem owner_of_ensureConn {net : Network} {k : Session ι}
    (h : (s.ensureConn i net).2 = some k) : k.owner = i := by
  have hown : ∀ n, some (Session.mk i n) = some k → k.owner = i := by
    intro n hn
    rw [← Option.some.inj hn]
  unfold ensureConn at h
  dsimp only at h
  split at h
  · split_ifs at h
    exact hown _ h
  · split_ifs at h
    · exact hown _ h
    · exact hown _ h

theorem calls_tryAcquire (s : System lock) (i : ι) (net : Network) :
    Calls i s (s.tryAcquire i net).1 := by
  have hconn := calls_ensureConn s i net
  unfold tryAcquire
  rcases h : s.ensureConn i net with ⟨t,_ | k⟩
  · rw [h] at hconn
    exact hconn
  · rw [h] at hconn
    dsimp only at hconn ⊢
    have hask : Calls i t { t with advisory := (lock.tryAcquire t.advisory k).1 } :=
      ⟨⟨fun _ _ => rfl,fun _ _ _ h => lock.keeps_tryAcquire h⟩,rfl,rfl,
        fun _ h => lock.keeps_tryAcquire h⟩
    split_ifs
    · exact hconn.trans hask
    · exact (hconn.trans hask).trans (calls_raising _ i net)
    · exact hconn.trans (calls_raising t i net)

/-- After a positive answer the lock is held in a session of the replica. -/
theorem holder_of_tryAcquire {net : Network} (h : (s.tryAcquire i net).2 = some true) :
    ∃ n, lock.holder (s.tryAcquire i net).1.advisory = some ⟨i,n⟩ := by
  have hown : ∀ k, (s.ensureConn i net).2 = some k → k.owner = i := fun k => owner_of_ensureConn
  unfold tryAcquire at h ⊢
  rcases hc : s.ensureConn i net with ⟨t,_ | ⟨j,n⟩⟩
  · rw [hc] at h
    exact absurd h (by simp)
  · rw [hc] at h hown
    dsimp only at h ⊢
    obtain rfl : j = i := hown _ rfl
    split_ifs at h ⊢
    refine ⟨n,?_⟩
    dsimp only at h ⊢
    rw [lock.holder_tryAcquire, if_pos (Option.some.inj h)]

omit [DecidableEq ι] in
theorem owner_of_openSession {k : Session ι} (h : s.openSession i = some k) : k.owner = i := by
  unfold openSession at h
  split at h
  · exact absurd h (by simp)
  · split_ifs at h
    rw [← Option.some.inj h]

theorem local_endSession (s : System lock) (k : Session ι) : Local k.owner s (s.endSession k) := by
  unfold endSession
  split_ifs
  · refine ⟨fun _ _ => rfl,fun j n hj h => lock.keeps_endSession ?_ h⟩
    rintro rfl
    exact hj rfl
  · exact .refl _ s

theorem local_unlock {k : Session ι} (hk : k.owner = i) (net : Network) :
    Local i s (s.unlock i k net) := by
  have hfree : Local i s { s with advisory := lock.release s.advisory k } := by
    refine ⟨fun _ _ => rfl,fun j n hj h => lock.keeps_release ?_ h⟩
    rintro rfl
    exact hj hk
  unfold unlock
  dsimp only
  split_ifs
  · exact hfree
  · exact hfree.trans (calls_raising _ i net).toLocal
  · exact (calls_raising s i net).toLocal

theorem local_close (s : System lock) (i : ι) (net : Network) : Local i s (s.close i net) := by
  unfold close
  dsimp only
  refine Local.trans ?_ (local_update _ i _)
  cases h : s.openSession i with
  | none => exact .refl i s
  | some k =>
    dsimp only
    split_ifs
    · have hend := local_endSession s k
      rwa [owner_of_openSession h] at hend
    · exact .refl i s

/-- The calls of `_release` do not touch the flag. -/
theorem isLeader_unlock (k : Session ι) (net : Network) :
    ((s.unlock i k net).replica i).isLeader = (s.replica i).isLeader := by
  unfold unlock
  dsimp only
  split_ifs
  · rfl
  · exact (calls_raising _ i net).isLeader
  · exact (calls_raising s i net).isLeader

theorem isLeader_close (net : Network) :
    ((s.close i net).replica i).isLeader = (s.replica i).isLeader := by
  unfold close
  dsimp only
  rw [replica_update, if_pos rfl]
  cases s.openSession i with
  | none => rfl
  | some k =>
    dsimp only
    unfold endSession
    split_ifs <;> rfl

/-- A step of one replica keeps the others sound. -/
theorem Sound.of_local (hs : s.Sound) (h : Local i s t)
    (held : (t.replica i).Claims → ∃ n, lock.holder t.advisory = some ⟨i,n⟩)
    (quiet : (t.replica i).point.Retiring → (t.replica i).isLeader = false) : t.Sound where
  held j hj := by
    by_cases hji : j = i
    · subst hji
      exact held hj
    · rw [h.replica j hji] at hj
      obtain ⟨n,hn⟩ := hs.held j hj
      exact ⟨n,h.holder j n hji hn⟩
  quiet j hj := by
    by_cases hji : j = i
    · subst hji
      exact quiet hj
    · rw [h.replica j hji] at hj ⊢
      exact hs.quiet j hj

/-- The condition of a step: the database does not end the session that holds the lock of a
replica, and the replica does not leave its loop, while it takes itself for the leader. -/
def Allowed (s : System lock) : Event ι → Prop
  | .advance i _ => (s.replica i).stop = true →
    (s.replica i).point = .looping ∨ (s.replica i).point = .waiting →
    (s.replica i).isLeader = false
  | .stop _ => True
  | .lose k => lock.holder s.advisory = some k → ¬(s.replica k.owner).Claims

/-- A poll, whatever comes of it: the thread goes to a place that is reached with a positive
answer only if the lock is granted. -/
theorem sound_tryAcquire (hs : s.Sound) (net : Network) {p : Point}
    (hp : p = .starting true ∨ p = .polled true → (s.tryAcquire i net).2 = some true)
    (hquiet : ¬p.Retiring) : ((s.tryAcquire i net).1.goto i p).Sound := by
  have hcall := calls_tryAcquire s i net
  refine hs.of_local (hcall.toLocal.trans (local_update _ i _)) ?_ ?_
  · intro hc
    rw [goto, replica_update, if_pos rfl] at hc
    obtain hflag | hpoint := hc
    · have hold : (s.replica i).Claims := .inl (hcall.isLeader ▸ hflag)
      obtain ⟨n,hn⟩ := hs.held i hold
      exact ⟨n,hcall.kept _ hn⟩
    · exact holder_of_tryAcquire (hp hpoint)
  · rw [goto, replica_update, if_pos rfl]
    exact fun h => absurd h hquiet

/-- A change of the replica alone that ends without a claim, or keeps one. -/
theorem sound_update (hs : s.Sound) {f : Replica → Replica}
    (hclaim : (f (s.replica i)).Claims → (s.replica i).Claims)
    (hquiet : (f (s.replica i)).point.Retiring → (f (s.replica i)).isLeader = false) :
    (s.update i f).Sound := by
  refine hs.of_local (local_update s i f) ?_ ?_
  · rw [replica_update, if_pos rfl]
    exact fun hc => hs.held i (hclaim hc)
  · rw [replica_update, if_pos rfl]
    exact hquiet

/-- A replica that is not the leader goes on, after calls that only touch what is its own. -/
theorem sound_goto (hs : s.Sound) (h : Local i s t) (hflag : (t.replica i).isLeader = false)
    {p : Point} (hp : ¬(p = .starting true ∨ p = .polled true)) : (t.goto i p).Sound := by
  refine hs.of_local (h.trans (local_update t i _)) ?_ ?_
  · rw [goto, replica_update, if_pos rfl]
    rintro (hc | hc)
    · rw [hflag] at hc
      exact absurd hc (by simp)
    · exact absurd hc hp
  · rw [goto, replica_update, if_pos rfl]
    exact fun _ => hflag

theorem update_update (s : System lock) (i : ι) (f g : Replica → Replica) :
    (s.update i f).update i g = s.update i (g ∘ f) := by
  simp [update]

theorem returning_ne (leaving : Bool) :
    ¬(returning leaving = .starting true ∨ returning leaving = .polled true) := by
  cases leaving <;> simp [returning]

theorem sound_advance (hs : s.Sound) (net : Network) (ha : s.Allowed (.advance i net)) :
    (s.advance i net).Sound := by
  have hpoll := fun p => sound_tryAcquire (i := i) hs net (p := p)
  have hleave : ∀ {p : Point}, (s.replica i).point = .looping ∨ (s.replica i).point = .waiting →
      ¬p.Retiring → ¬(p = .starting true ∨ p = .polled true) →
      (s.goto i (if (s.replica i).stop then .releasing true else p)).Sound := by
    intro p hpoint hp hno
    split_ifs with hstop
    · exact sound_goto hs (.refl i s) (ha hstop hpoint) (by simp)
    · refine sound_update hs ?_ fun hret => absurd hret hp
      exact fun hc => hc.elim .inl fun h => absurd h hno
  unfold advance
  split
  · rcases h : s.tryAcquire i net with ⟨t,_ | ok⟩
    · rw [h] at hpoll
      exact hpoll .looping (by simp) id
    · rw [h] at hpoll
      exact hpoll (.starting ok) (by simp) id
  · next ok hp =>
    rw [assign, goto, update_update]
    refine sound_update hs ?_ (fun hret => absurd hret id)
    rintro (hc | hc)
    · exact .inr (.inl (hp.trans (congrArg Point.starting hc)))
    · exact absurd hc (by simp)
  · next hp => exact hleave (.inl hp) id (by simp)
  · rcases h : s.tryAcquire i net with ⟨t,_ | ok⟩
    · rw [h] at hpoll
      exact hpoll (.polled false) (by simp) id
    · rw [h] at hpoll
      exact hpoll (.polled ok) (by simp) id
  · next ok hp =>
    rw [assign, goto, update_update, update_update]
    refine sound_update hs ?_ ?_
    · rintro (hc | hc)
      · exact .inr (.inr (hp.trans (congrArg Point.polled hc)))
      · simp only [Function.comp_apply] at hc
        split_ifs at hc <;> exact absurd hc (by simp)
    · -- the loop steps down only after it has cleared the flag
      intro hret
      simp only [Function.comp_apply] at hret ⊢
      cases ok with
      | false => rfl
      | true => exact absurd hret (by simp [Point.Retiring])
  · next leaving hp =>
    have hflag : (s.replica i).isLeader = false := hs.quiet i (by rw [hp]; trivial)
    cases h : s.openSession i with
    | none => exact sound_goto hs (.refl i s) hflag (returning_ne leaving)
    | some k =>
      exact sound_goto hs (local_unlock (owner_of_openSession h) net)
        ((isLeader_unlock k net).trans hflag) (by simp)
  · next leaving hp =>
    have hflag : (s.replica i).isLeader = false := hs.quiet i (by rw [hp]; trivial)
    exact sound_goto hs (local_close s i net) ((isLeader_close net).trans hflag)
      (returning_ne leaving)
  · next hp => exact hleave (.inr hp) id (by simp)
  · rw [assign, goto, update_update]
    refine sound_update hs ?_ fun _ => rfl
    rintro (hc | hc) <;> exact absurd hc (by simp)
  · exact hs

theorem sound_endSession (hs : s.Sound) {k : Session ι}
    (hk : lock.holder s.advisory = some k → ¬(s.replica k.owner).Claims) :
    (s.endSession k).Sound := by
  have hsame : (s.endSession k).replica = s.replica := by
    unfold endSession
    split_ifs <;> rfl
  refine hs.of_local (local_endSession s k) ?_ ?_
  · rw [hsame]
    intro hc
    obtain ⟨n,hn⟩ := hs.held _ hc
    refine ⟨n,?_⟩
    have hne : Session.mk k.owner n ≠ k := by
      intro he
      rw [he] at hn
      exact hk hn hc
    unfold endSession
    split_ifs
    · exact lock.keeps_endSession hne hn
    · exact hn
  · rw [hsame]
    exact hs.quiet _

theorem sound_step (hs : s.Sound) {e : Event ι} (ha : s.Allowed e) : (s.step e).Sound := by
  cases e with
  | advance i net => exact sound_advance hs net ha
  | stop i =>
    change (s.update i fun r => { r with stop := true }).Sound
    apply sound_update hs
    · exact fun hc => hc
    · exact hs.quiet i
  | lose k => exact sound_endSession hs ha

end

omit [DecidableEq ι] in
theorem sound_init : ({} : System lock).Sound where
  held i h := by
    rcases h with h | h | h <;> exact absurd h (by simp)
  quiet i h := absurd h id

variable (lock) in
/-- In every state of a run at most one replica takes itself for the leader. -/
def AtMostOneLeader (events : List (Event ι)) : Prop :=
  ∀ p q, events = p ++ q → ∀ i j, (run step ({} : System lock) p).isLeader i = true →
    (run step ({} : System lock) p).isLeader j = true → i = j

variable (lock) in
/-- Whatever the lock and the number of replicas, and in whatever order they take their steps:
there is at most one leader in the runs in which none loses its session, or leaves its loop,
while it takes itself for the leader. -/
theorem atMostOneLeader (events : List (Event ι))
    (h : Along step Allowed ({} : System lock) events) : AtMostOneLeader lock events := by
  rintro p q rfl i j hi hj
  rw [along_append] at h
  have hs : (run step ({} : System lock) p).Sound :=
    run_invariant (I := Sound) (fun s e ha hs => sound_step hs ha) h.1 sound_init
  obtain ⟨m,hm⟩ := hs.held i (.inl hi)
  obtain ⟨n,hn⟩ := hs.held j (.inl hj)
  have hown : Session.mk i m = Session.mk j n := Option.some.inj (hm.symm.trans hn)
  exact congrArg Session.owner hown

instance (s : System lock) (e : Event ι) : Decidable (s.Allowed e) :=
  match e with
  | .advance i _ => inferInstanceAs (Decidable ((s.replica i).stop = true →
    (s.replica i).point = .looping ∨ (s.replica i).point = .waiting →
    (s.replica i).isLeader = false))
  | .stop _ => .isTrue trivial
  | .lose k => inferInstanceAs (Decidable (lock.holder s.advisory = some k →
    ¬(s.replica k.owner).Claims))

end System

/-! ### Two replicas -/

/-- The leader's poll fails and it steps down; its session ends, and the other replica takes
over. -/
def failover : List (Event Bool) :=
  [.advance false {},.advance false {},.advance true {},.advance true {},.advance false {},
   .advance false { answers := false, breaks := true },.advance false {},.lose ⟨false,0⟩,
   .advance true {},.advance true {},.advance true {}]

theorem atMostOneLeader_failover :
    System.AtMostOneLeader (countedLock (Session Bool)) failover :=
  System.atMostOneLeader (countedLock (Session Bool)) failover (by decide +kernel)

example : (run System.step ({} : System (countedLock (Session Bool))) failover).isLeader true =
    true := by decide +kernel

/-- The leader is told to stop, and gives the lock back before it clears its flag. -/
def stopped : List (Event Bool) :=
  [.advance false {},.advance false {},.stop false,.advance false {},.advance false {},
   .advance true {},.advance true {}]

/-- The leader's session ends between two polls. -/
def severed : List (Event Bool) :=
  [.advance false {},.advance false {},.lose ⟨false,0⟩,.advance true {},.advance true {}]

/-- In both runs the other replica becomes the leader next to the first one. -/
theorem not_atMostOneLeader :
    ¬System.AtMostOneLeader (countedLock (Session Bool)) stopped ∧
      ¬System.AtMostOneLeader (countedLock (Session Bool)) severed := by
  constructor
  · intro h
    exact absurd (h stopped [] (by simp) false true (by decide +kernel) (by decide +kernel))
      (by decide)
  · intro h
    exact absurd (h severed [] (by simp) false true (by decide +kernel) (by decide +kernel))
      (by decide)

end Arsonist.ControlPlane.Coordinator
