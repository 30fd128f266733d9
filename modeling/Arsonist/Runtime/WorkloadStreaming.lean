import Arsonist.Library.History
import Arsonist.Library.Steps
import Arsonist.Library.Sums

/-! The streaming sessions of `runtime/workload_streaming.py`. A session that is created under the
id of an open one takes its place, and what the old one had streamed is in no list any more. -/
namespace Arsonist.Runtime
open Arsonist.Library

inductive StreamState
  | initializing
  | active
  | paused
  | backpressure
  | completed
  | failed
  deriving DecidableEq

structure StreamingSession where
  sessionId : String
  state : StreamState := .initializing
  tokensGenerated : ℤ := 0
  tokensPerSecond : ℚ := 0
  chunksSent : ℤ := 0
  bytesSent : ℤ := 0
  latencyFirstTokenMs : ℚ := 0
  latencyInterTokenMs : ℚ := 0
  backpressureEvents : ℤ := 0
  createdAt : ℚ := 0
  completedAt : ℚ := 0
  deriving DecidableEq

instance instKeyedStreamingSession : Keyed StreamingSession String :=
  ⟨StreamingSession.sessionId⟩

namespace StreamingSession
variable (s : StreamingSession)

/-- As `create_session` stores it. -/
def opened (now : ℚ) : StreamingSession := { s with createdAt := now, state := .initializing }

def activated (firstTokenLatencyMs : ℚ) : StreamingSession :=
  { s with state := .active, latencyFirstTokenMs := firstTokenLatencyMs }

/-- Tokens are taken in these states only. -/
def Streams : Prop := s.state = .active ∨ s.state = .backpressure

instance instDecidableStreams : Decidable s.Streams := inferInstanceAs (Decidable (_ ∨ _))

def streamed (tokens : ℤ) (tps interTokenMs : ℚ) (bytesSent : ℤ) : StreamingSession :=
  { s with
    tokensGenerated := s.tokensGenerated+tokens
    tokensPerSecond := tps
    chunksSent := s.chunksSent+1
    bytesSent := s.bytesSent+bytesSent
    latencyInterTokenMs := if 0 < interTokenMs then interTokenMs else s.latencyInterTokenMs }

def pressed : StreamingSession :=
  { s with state := .backpressure, backpressureEvents := s.backpressureEvents+1 }

def resumed : StreamingSession := { s with state := .active }

def closed (now : ℚ) (success : Bool) : StreamingSession :=
  { s with completedAt := now, state := if success then .completed else .failed }

end StreamingSession

structure StreamingManager where
  maxConcurrent : ℤ := 500000
  maxHistory : ℤ := 1000
  sessions : Table StreamingSession := Table.empty
  completed : List StreamingSession := []
  totalCreated : ℕ := 0
  totalCompleted : ℕ := 0
  totalTokens : ℤ := 0

namespace StreamingManager
variable (m : StreamingManager)

/-- `__init__`. -/
abbrev init (maxConcurrent maxHistory : ℤ) : StreamingManager :=
  { maxConcurrent := maxConcurrent, maxHistory := maxHistory }

def createSession (now : ℚ) (session : StreamingSession) : StreamingManager × Bool :=
  if m.maxConcurrent ≤ m.sessions.entries.length then (m,false)
  else
    ({ m with sessions := m.sessions.put (session.opened now)
              totalCreated := m.totalCreated+1 },true)

def activate (sessionId : String) (firstTokenLatencyMs : ℚ) : StreamingManager × Bool :=
  match m.sessions.get? sessionId with
  | none => (m,false)
  | some session =>
    ({ m with sessions := m.sessions.put (session.activated firstTokenLatencyMs) },true)

def streamTokens (sessionId : String) (tokens : ℤ) (tps interTokenMs : ℚ) (bytesSent : ℤ) :
    StreamingManager × Bool :=
  match m.sessions.get? sessionId with
  | none => (m,false)
  | some session =>
    if session.Streams then
      ({ m with sessions := m.sessions.put (session.streamed tokens tps interTokenMs bytesSent)
                totalTokens := m.totalTokens+tokens },true)
    else (m,false)

def applyBackpressure (sessionId : String) : StreamingManager × Bool :=
  match m.sessions.get? sessionId with
  | none => (m,false)
  | some session => ({ m with sessions := m.sessions.put session.pressed },true)

def resume (sessionId : String) : StreamingManager × Bool :=
  match m.sessions.get? sessionId with
  | none => (m,false)
  | some session =>
    if session.state = .backpressure then
      ({ m with sessions := m.sessions.put session.resumed },true)
    else (m,false)

def completeSession (now : ℚ) (sessionId : String) (success : Bool) :
    StreamingManager × Option StreamingSession :=
  match m.sessions.get? sessionId with
  | none => (m,none)
  | some session =>
    ({ m with sessions := m.sessions.erase sessionId
              totalCompleted := m.totalCompleted+1
              completed := truncated m.maxHistory (m.completed ++ [session.closed now success]) },
      some (session.closed now success))

end StreamingManager

inductive StreamingCall
  | createSession (now : ℚ) (session : StreamingSession)
  | activate (sessionId : String) (firstTokenLatencyMs : ℚ)
  | streamTokens (sessionId : String) (tokens : ℤ) (tps interTokenMs : ℚ) (bytesSent : ℤ)
  | applyBackpressure (sessionId : String)
  | resume (sessionId : String)
  | completeSession (now : ℚ) (sessionId : String) (success : Bool)

namespace StreamingManager

def exec (m : StreamingManager) : StreamingCall → StreamingManager
  | .createSession now session => (m.createSession now session).1
  | .activate sessionId firstTokenLatencyMs => (m.activate sessionId firstTokenLatencyMs).1
  | .streamTokens sessionId tokens tps interTokenMs bytesSent =>
    (m.streamTokens sessionId tokens tps interTokenMs bytesSent).1
  | .applyBackpressure sessionId => (m.applyBackpressure sessionId).1
  | .resume sessionId => (m.resume sessionId).1
  | .completeSession now sessionId success => (m.completeSession now sessionId success).1

/-- The session that a call opens. -/
def opened (m : StreamingManager) : StreamingCall → Option StreamingSession
  | .createSession now session =>
    if (m.createSession now session).2 then some (session.opened now) else none
  | _ => none

/-- The open session whose place a call takes. -/
def replaced (m : StreamingManager) : StreamingCall → Option StreamingSession
  | .createSession now session =>
    if (m.createSession now session).2 then m.sessions.get? session.sessionId else none
  | _ => none

/-- The session that a call closes, as it is returned. -/
def closed (m : StreamingManager) : StreamingCall → Option StreamingSession
  | .completeSession now sessionId success => (m.completeSession now sessionId success).2
  | _ => none

/-- The tokens that a call has taken. -/
def taken (m : StreamingManager) : StreamingCall → Option ℤ
  | .streamTokens sessionId tokens tps interTokenMs bytesSent =>
    if (m.streamTokens sessionId tokens tps interTokenMs bytesSent).2 then some tokens else none
  | _ => none

end StreamingManager

/-- What calls have given out so far. -/
structure StreamingHistory where
  opened : List StreamingSession := []
  replaced : List StreamingSession := []
  closed : List StreamingSession := []
  taken : List ℤ := []

/-- What the calls of a run give out. -/
def streamingHistory (m : StreamingManager) (calls : List StreamingCall) : StreamingHistory where
  opened := emitted StreamingManager.exec StreamingManager.opened m calls
  replaced := emitted StreamingManager.exec StreamingManager.replaced m calls
  closed := emitted StreamingManager.exec StreamingManager.closed m calls
  taken := emitted StreamingManager.exec StreamingManager.taken m calls

/-- The tokens of some sessions. -/
def sessionTokens (l : List StreamingSession) : ℤ :=
  (l.map StreamingSession.tokensGenerated).sum

namespace StreamingHistory

/-- What the calls so far say about a manager. -/
structure Accounts (h : StreamingHistory) (m : StreamingManager) : Prop where
  room : (m.sessions.entries.length : ℤ) ≤ max 0 m.maxConcurrent
  ids : (h.opened.map StreamingSession.sessionId).Perm
    (m.sessions.entries.map StreamingSession.sessionId ++
      (h.closed ++ h.replaced).map StreamingSession.sessionId)
  created : m.totalCreated = h.opened.length
  ended : m.totalCompleted = h.closed.length
  tokens : m.totalTokens = h.taken.sum
  balance : h.taken.sum+sessionTokens h.opened =
    sessionTokens m.sessions.entries+sessionTokens h.closed+sessionTokens h.replaced
  recent : 0 < m.maxHistory → m.completed = h.closed.rtake m.maxHistory.toNat
  open_state : ∀ s ∈ m.sessions.entries,
    s.state = .initializing ∨ s.state = .active ∨ s.state = .backpressure
  closed_state : ∀ s ∈ h.closed, s.state = .completed ∨ s.state = .failed

end StreamingHistory

namespace StreamingManager

/-- What a call can do, with the session that it opens, the one whose place that takes, the one that
it closes and the tokens that it takes. -/
inductive Does (m : StreamingManager) : StreamingManager → Option StreamingSession →
    Option StreamingSession → Option StreamingSession → Option ℤ → Prop
  | idle : Does m m none none none none
  | opens (s : StreamingSession) (hroom : (m.sessions.entries.length : ℤ) < m.maxConcurrent)
      (hstate : s.state = .initializing) :
      Does m { m with sessions := m.sessions.put s, totalCreated := m.totalCreated+1 } (some s)
        (m.sessions.get? s.sessionId) none none
  | changes {s s' : StreamingSession} (taken : Option ℤ)
      (hget : m.sessions.get? s.sessionId = some s) (hid : s'.sessionId = s.sessionId)
      (hstate : s'.state = .active ∨ s'.state = .backpressure)
      (htokens : s'.tokensGenerated = s.tokensGenerated+taken.getD 0) :
      Does m { m with sessions := m.sessions.put s', totalTokens := m.totalTokens+taken.getD 0 }
        none none none taken
  | closes {s : StreamingSession} {sessionId : String}
      (hget : m.sessions.get? sessionId = some s) (now : ℚ) (success : Bool) :
      Does m { m with
        sessions := m.sessions.erase sessionId
        totalCompleted := m.totalCompleted+1
        completed := truncated m.maxHistory (m.completed ++ [s.closed now success]) }
        none none (some (s.closed now success)) none

/-- A change of a session that takes no tokens. -/
theorem Does.touches {m : StreamingManager} {s s' : StreamingSession}
    (hget : m.sessions.get? s.sessionId = some s) (hid : s'.sessionId = s.sessionId)
    (hstate : s'.state = .active ∨ s'.state = .backpressure)
    (htokens : s'.tokensGenerated = s.tokensGenerated) :
    Does m { m with sessions := m.sessions.put s' } none none none none := by
  have hdoes := Does.changes none hget hid hstate (by simpa using htokens)
  rwa [Option.getD_none, add_zero] at hdoes

theorem Does.limits {m m' : StreamingManager} {opened replaced closed : Option StreamingSession}
    {taken : Option ℤ} (h : Does m m' opened replaced closed taken) :
    m'.maxConcurrent = m.maxConcurrent ∧ m'.maxHistory = m.maxHistory := by
  cases h <;> exact ⟨rfl,rfl⟩

theorem get?_self {m : StreamingManager} {sessionId : String} {s : StreamingSession}
    (h : m.sessions.get? sessionId = some s) : m.sessions.get? s.sessionId = some s := by
  have hid : s.sessionId = sessionId := Table.key_of_get? h
  rw [hid, h]

theorem does (m : StreamingManager) (call : StreamingCall) :
    Does m (m.exec call) (m.opened call) (m.replaced call) (m.closed call) (m.taken call) := by
  cases call with
  | createSession now session =>
    simp only [exec, opened, replaced, closed, taken, createSession]
    split_ifs with hfull hno hno
    · cases hno
    · exact Does.idle
    · exact Does.opens (session.opened now) (not_le.mp hfull) rfl
    · exact absurd rfl hno
  | activate sessionId firstTokenLatencyMs =>
    simp only [exec, opened, replaced, closed, taken, activate]
    cases hget : m.sessions.get? sessionId with
    | none => exact Does.idle
    | some session =>
      exact @Does.touches m _ (session.activated _) (get?_self hget) rfl (Or.inl rfl) rfl
  | streamTokens sessionId tokens tps interTokenMs bytesSent =>
    cases hget : m.sessions.get? sessionId with
    | none =>
      have hcall : m.streamTokens sessionId tokens tps interTokenMs bytesSent = (m,false) := by
        rw [streamTokens, hget]
      simp only [exec, opened, replaced, closed, taken, hcall]
      exact Does.idle
    | some session =>
      by_cases hstreams : session.Streams
      · have hcall : m.streamTokens sessionId tokens tps interTokenMs bytesSent =
            ({ m with
                sessions := m.sessions.put (session.streamed tokens tps interTokenMs bytesSent)
                totalTokens := m.totalTokens+tokens },true) := by
          rw [streamTokens, hget]
          exact if_pos hstreams
        simp only [exec, opened, replaced, closed, taken, hcall]
        exact @Does.changes m _ (session.streamed _ _ _ _) (some tokens) (get?_self hget) rfl
          hstreams rfl
      · have hcall : m.streamTokens sessionId tokens tps interTokenMs bytesSent = (m,false) := by
          rw [streamTokens, hget]
          exact if_neg hstreams
        simp only [exec, opened, replaced, closed, taken, hcall]
        exact Does.idle
  | applyBackpressure sessionId =>
    simp only [exec, opened, replaced, closed, taken, applyBackpressure]
    cases hget : m.sessions.get? sessionId with
    | none => exact Does.idle
    | some session =>
      exact @Does.touches m _ session.pressed (get?_self hget) rfl (Or.inr rfl) rfl
  | resume sessionId =>
    simp only [exec, opened, replaced, closed, taken, resume]
    cases hget : m.sessions.get? sessionId with
    | none => exact Does.idle
    | some session =>
      dsimp only
      split_ifs with hpressed
      · exact @Does.touches m _ session.resumed (get?_self hget) rfl (Or.inl rfl) rfl
      · exact Does.idle
  | completeSession now sessionId success =>
    simp only [exec, opened, replaced, closed, taken, completeSession]
    cases hget : m.sessions.get? sessionId with
    | none => exact Does.idle
    | some session => exact Does.closes hget now success

end StreamingManager

namespace StreamingHistory
open StreamingManager

variable {h : StreamingHistory} {m m' : StreamingManager}

/-- The history with what one more call gives out. -/
def add (h : StreamingHistory) (opened replaced closed : Option StreamingSession)
    (taken : Option ℤ) : StreamingHistory :=
  ⟨h.opened ++ opened.toList,h.replaced ++ replaced.toList,h.closed ++ closed.toList,
    h.taken ++ taken.toList⟩

theorem sessionTokens_concat (l : List StreamingSession) (s : StreamingSession) :
    sessionTokens (l ++ [s]) = sessionTokens l+s.tokensGenerated := by
  simp [sessionTokens]

theorem sessionTokens_put (t : Table StreamingSession) (s : StreamingSession) :
    sessionTokens (t.put s).entries = sessionTokens t.entries-
      (t.get? s.sessionId).elim 0 StreamingSession.tokensGenerated+s.tokensGenerated :=
  Table.sum_put t s StreamingSession.tokensGenerated

theorem sessionTokens_erase (t : Table StreamingSession) (sessionId : String) :
    sessionTokens (t.erase sessionId).entries = sessionTokens t.entries-
      (t.get? sessionId).elim 0 StreamingSession.tokensGenerated :=
  Table.sum_erase t sessionId StreamingSession.tokensGenerated

theorem Accounts.opens (ha : h.Accounts m) {s : StreamingSession}
    (hroom : (m.sessions.entries.length : ℤ) < m.maxConcurrent) (hstate : s.state = .initializing) :
    (h.add (some s) (m.sessions.get? s.sessionId) none none).Accounts
      { m with sessions := m.sessions.put s, totalCreated := m.totalCreated+1 } where
  room := by
    have hlength := Table.length_put m.sessions s
    have hone : (if (m.sessions.get? (Keyed.key s)).isSome then 0 else 1) ≤ 1 := by
      split_ifs <;> omega
    dsimp only
    omega
  ids := by
    rw [List.perm_iff_count]
    intro k
    have hcount := List.perm_iff_count.mp ha.ids k
    cases hget : m.sessions.get? s.sessionId with
    | none =>
      have hkeys : ((m.sessions.put s).entries.map StreamingSession.sessionId) = _ :=
        Table.keys_put_of_none hget
      simp only [add, hkeys, Option.toList_some, Option.toList_none, List.map_append,
        List.count_append, List.append_nil] at hcount ⊢
      change _ = List.count k (m.sessions.entries.map StreamingSession.sessionId)+
        List.count k [s.sessionId]+_
      simp only [List.map_cons, List.map_nil]
      omega
    | some old =>
      have hkeys : ((m.sessions.put s).entries.map StreamingSession.sessionId) =
          m.sessions.entries.map StreamingSession.sessionId :=
        Table.keys_put_of_some hget
      have hid : old.sessionId = s.sessionId := Table.key_of_get? hget
      simp only [add, hkeys, Option.toList_some, Option.toList_none, List.map_append,
        List.count_append, List.append_nil, List.map_cons, List.map_nil, hid] at hcount ⊢
      omega
  created := by simp [add, ha.created]
  ended := by simp [add, ha.ended]
  tokens := by simp [add, ha.tokens]
  balance := by
    have hbalance := ha.balance
    have hput := sessionTokens_put m.sessions s
    cases hget : m.sessions.get? s.sessionId with
    | none =>
      simp only [hget, Option.elim_none] at hput
      simp only [add, Option.toList_some, Option.toList_none, List.append_nil,
        sessionTokens_concat]
      omega
    | some old =>
      simp only [hget, Option.elim_some] at hput
      simp only [add, Option.toList_some, Option.toList_none, List.append_nil,
        sessionTokens_concat]
      omega
  recent hpos := by simpa [add] using ha.recent hpos
  open_state s' hs' := by
    obtain rfl | ⟨hs',-⟩ := Table.mem_put.mp hs'
    · exact Or.inl hstate
    · exact ha.open_state s' hs'
  closed_state s' hs' := ha.closed_state s' (by simpa [add] using hs')

theorem Accounts.changes (ha : h.Accounts m) {s s' : StreamingSession} (taken : Option ℤ)
    (hget : m.sessions.get? s.sessionId = some s) (hid : s'.sessionId = s.sessionId)
    (hstate : s'.state = .active ∨ s'.state = .backpressure)
    (htokens : s'.tokensGenerated = s.tokensGenerated+taken.getD 0) :
    (h.add none none none taken).Accounts
      { m with sessions := m.sessions.put s', totalTokens := m.totalTokens+taken.getD 0 } := by
  have hget' : m.sessions.get? s'.sessionId = some s := by rw [hid, hget]
  have hkeys : (m.sessions.put s').entries.map StreamingSession.sessionId =
      m.sessions.entries.map StreamingSession.sessionId := Table.keys_put_of_some hget'
  have hlength := congrArg List.length hkeys
  rw [List.length_map, List.length_map] at hlength
  have htaken : (h.taken ++ taken.toList).sum = h.taken.sum+taken.getD 0 := by
    cases taken <;> simp
  refine ⟨?_,?_,?_,?_,?_,?_,?_,fun t ht => ?_,fun t ht => ?_⟩
  · rw [hlength]
    exact ha.room
  · simpa [add, hkeys] using ha.ids
  · simpa [add] using ha.created
  · simpa [add] using ha.ended
  · rw [add, htaken, ha.tokens]
  · have hbalance := ha.balance
    have hput := sessionTokens_put m.sessions s'
    rw [hget', Option.elim_some] at hput
    simp only [add, Option.toList_none, List.append_nil, htaken]
    omega
  · simpa [add] using ha.recent
  · obtain rfl | ⟨ht,-⟩ := Table.mem_put.mp ht
    · exact Or.inr hstate
    · exact ha.open_state t ht
  · exact ha.closed_state t (by simpa [add] using ht)

theorem Accounts.closes (ha : h.Accounts m) {s : StreamingSession} {sessionId : String}
    (hget : m.sessions.get? sessionId = some s) (now : ℚ) (success : Bool) :
    (h.add none none (some (s.closed now success)) none).Accounts { m with
      sessions := m.sessions.erase sessionId
      totalCompleted := m.totalCompleted+1
      completed := truncated m.maxHistory (m.completed ++ [s.closed now success]) } := by
  have hid : (s.closed now success).sessionId = sessionId := Table.key_of_get? hget
  have hkeys : (m.sessions.erase sessionId).entries.map StreamingSession.sessionId =
      (m.sessions.entries.map StreamingSession.sessionId).erase sessionId :=
    Table.keys_erase m.sessions sessionId
  have hmem : sessionId ∈ m.sessions.entries.map StreamingSession.sessionId := by
    exact List.mem_map.mpr ⟨s,Table.mem_of_get? hget,hid⟩
  refine ⟨?_,?_,?_,?_,?_,?_,fun hpos => ?_,fun t ht => ?_,fun t ht => ?_⟩
  · have hlength := Table.length_erase_of_some hget
    have hroom := ha.room
    dsimp only
    omega
  · rw [List.perm_iff_count]
    intro k
    have hcount := List.perm_iff_count.mp ha.ids k
    have herase := (List.perm_cons_erase hmem).count_eq k
    simp only [add, hkeys, Option.toList_some, Option.toList_none, List.map_append,
      List.count_append, List.append_nil, List.map_cons, List.map_nil, hid, List.count_cons,
      List.count_nil] at hcount herase ⊢
    omega
  · simpa [add] using ha.created
  · simp [add, ha.ended]
  · simpa [add] using ha.tokens
  · have hbalance := ha.balance
    have herase := sessionTokens_erase m.sessions sessionId
    rw [hget, Option.elim_some] at herase
    have htokens : (s.closed now success).tokensGenerated = s.tokensGenerated := rfl
    simp only [add, Option.toList_some, Option.toList_none, List.append_nil,
      sessionTokens_concat, htokens]
    omega
  · dsimp only at hpos
    have hnat : ((m.maxHistory.toNat : ℕ) : ℤ) = m.maxHistory := Int.toNat_of_nonneg hpos.le
    have hone : truncated m.maxHistory (m.completed ++ [s.closed now success]) =
        (m.completed ++ [s.closed now success]).rtake m.maxHistory.toNat := by
      rw [← truncated_eq_rtake (by omega), hnat]
    dsimp only
    rw [hone, ha.recent hpos, rtake_rtake_append]
    rfl
  · exact ha.open_state t (Table.mem_erase.mp ht).1
  · obtain ht | ht := List.mem_append.mp ht
    · exact ha.closed_state t ht
    · obtain rfl := List.mem_singleton.mp ht
      cases success
      · exact Or.inr rfl
      · exact Or.inl rfl

theorem Accounts.step (ha : h.Accounts m) {opened replaced closed : Option StreamingSession}
    {taken : Option ℤ} (hdoes : Does m m' opened replaced closed taken) :
    (h.add opened replaced closed taken).Accounts m' := by
  cases hdoes with
  | idle => simpa [add] using ha
  | opens s hroom hstate => exact ha.opens hroom hstate
  | changes taken hget hid hstate htokens => exact ha.changes taken hget hid hstate htokens
  | closes hget now success => exact ha.closes hget now success

end StreamingHistory

/-- After every run, each session that was opened is open, closed or replaced, and none of their
tokens is lost or counted twice. -/
theorem sessions_accounted (maxConcurrent maxHistory : ℤ) (calls : List StreamingCall) :
    (streamingHistory (.init maxConcurrent maxHistory) calls).Accounts
      (run StreamingManager.exec (.init maxConcurrent maxHistory) calls) ∧
    (run StreamingManager.exec (.init maxConcurrent maxHistory) calls).maxConcurrent =
      maxConcurrent ∧
    (run StreamingManager.exec (.init maxConcurrent maxHistory) calls).maxHistory =
      maxHistory := by
  induction calls using List.reverseRecOn with
  | nil =>
    refine ⟨⟨?_,List.Perm.refl _,rfl,rfl,rfl,rfl,fun _ => ?_,?_,?_⟩,rfl,rfl⟩
    · exact le_max_left 0 _
    · exact (List.drop_nil).symm
    · intro s hs
      cases hs
    · intro s hs
      cases hs
  | append_singleton calls call ih =>
    have hdoes := StreamingManager.does
      (run StreamingManager.exec (.init maxConcurrent maxHistory) calls) call
    obtain ⟨ha,hconcurrent,hhistory⟩ := ih
    have hlimits := hdoes.limits
    rw [run_concat, streamingHistory, hlimits.1, hlimits.2]
    simp only [emitted_concat]
    exact ⟨ha.step hdoes,hconcurrent,hhistory⟩

end Arsonist.Runtime
