import Arsonist.DistributedQueue.MergeAtomicity
import Arsonist.Library.Steps

/-! The windows in which a cluster pulls events from another one (`mesh/anti_entropy.py`). -/
namespace Arsonist.Mesh
open Arsonist.Library Arsonist.DistributedQueue

/-- An engine with its event log. The dictionary of cursors holds the last number of each remote
cluster that was planned for. -/
structure AntiEntropyEngine where
  eventLog : EventTable
  remoteCursors : ClusterId → Option ℤ := fun _ => none

namespace AntiEntropyEngine

def cursor (e : AntiEntropyEngine) (remoteCluster : ClusterId) : ℤ :=
  (e.remoteCursors remoteCluster).getD 0

/-- `plan_pull`: the engine and the window. -/
def planPull (remoteCluster : ClusterId) (remoteLastSeq : ℤ) (e : AntiEntropyEngine) :
    AntiEntropyEngine × ℤ × ℤ :=
  let lastCursor := e.cursor remoteCluster
  ({ e with remoteCursors :=
      Function.update e.remoteCursors remoteCluster (some (max lastCursor remoteLastSeq)) },
    max lastCursor (remoteLastSeq-200),e.eventLog.lastSeq)

end AntiEntropyEngine

/-- What happens to an engine: its log grows in either way, and pulls are planned. -/
inductive EngineEvent (J : Type*)
  | append (now : ℚ) (gap : ℕ) (eventId : EventId) (eventType : String) (payload : J)
      (sourceClusterId : ClusterId)
  | mergeEvents (commits : Bool) (arrivals : List (Arrival J))
  | planPull (remoteCluster : ClusterId) (remoteLastSeq : ℤ)

namespace AntiEntropyEngine
variable {J : Type*} (py : PyJson J)

def step (e : AntiEntropyEngine) : EngineEvent J → AntiEntropyEngine
  | .append now gap eventId eventType payload source =>
    { e with eventLog := (e.eventLog.append py now gap eventId eventType payload source).1 }
  | .mergeEvents commits arrivals =>
    { e with eventLog := (e.eventLog.mergeEvents py commits arrivals).1 }
  | .planPull remoteCluster remoteLastSeq => (e.planPull remoteCluster remoteLastSeq).1

/-- The window holds all numbers behind the cursor that are among the last 200. -/
def NoHole (e : AntiEntropyEngine) (remoteCluster : ClusterId) (remoteLastSeq : ℤ) : Prop :=
  ∀ s, max (e.cursor remoteCluster) (remoteLastSeq-200) < s → s ≤ remoteLastSeq →
    (e.planPull remoteCluster remoteLastSeq).2.1 < s ∧
      s ≤ (e.planPull remoteCluster remoteLastSeq).2.2

/-- The remote cluster has nothing new, or no more numbers than the local log. -/
def WithinLocal (e : AntiEntropyEngine) : EngineEvent J → Prop
  | .planPull remoteCluster remoteLastSeq =>
    remoteLastSeq ≤ e.cursor remoteCluster ∨ remoteLastSeq ≤ e.eventLog.lastSeq
  | _ => True

instance (e : AntiEntropyEngine) (event : EngineEvent J) : Decidable (e.WithinLocal event) :=
  match event with
  | .append .. => .isTrue trivial
  | .mergeEvents .. => .isTrue trivial
  | .planPull .. => inferInstanceAs (Decidable (_ ∨ _))

/-- The end of the window is a number of the local log. -/
theorem noHole_iff (e : AntiEntropyEngine) (remoteCluster : ClusterId) (remoteLastSeq : ℤ) :
    e.NoHole remoteCluster remoteLastSeq ↔
      remoteLastSeq ≤ e.cursor remoteCluster ∨ remoteLastSeq ≤ e.eventLog.lastSeq := by
  constructor
  · intro h
    by_cases hold : remoteLastSeq ≤ e.cursor remoteCluster
    · exact Or.inl hold
    · have hlast := h remoteLastSeq (max_lt (not_le.mp hold) (by omega)) le_rfl
      exact Or.inr hlast.2
  · rintro (hold | hlocal) s hs hle
    · exact absurd (hle.trans hold) (not_le.mpr ((le_max_left _ _).trans_lt hs))
    · exact ⟨hs,hle.trans hlocal⟩

/-- A cursor moves only when a pull is planned for its cluster. -/
theorem cursor_step (e : AntiEntropyEngine) (event : EngineEvent J) (remote : ClusterId) :
    (e.step py event).cursor remote = e.cursor remote ∨
      ∃ last, event = .planPull remote last ∧
        (e.step py event).cursor remote = max (e.cursor remote) last := by
  cases event with
  | append now gap eventId eventType payload source => exact Or.inl rfl
  | mergeEvents commits arrivals => exact Or.inl rfl
  | planPull remote' last =>
    by_cases hsame : remote = remote'
    · subst hsame
      refine Or.inr ⟨last,rfl,?_⟩
      simp [step, planPull, cursor]
    · refine Or.inl ?_
      simp [step, planPull, cursor, hsame]

/-- Whatever number the cursor of a cluster has passed was in some window, or no more among the
last 200 when it was passed. -/
theorem pulled_or_dropped {e : AntiEntropyEngine} {events : List (EngineEvent J)}
    (h : Along (step py) WithinLocal e events) {remote : ClusterId} {s : ℤ}
    (hbehind : e.cursor remote < s) (hpassed : s ≤ (run (step py) e events).cursor remote) :
    ∃ t last, (t,.planPull remote last) ∈ steps (step py) e events ∧
      (s ≤ last-200 ∨ (t.planPull remote last).2.1 < s ∧ s ≤ (t.planPull remote last).2.2) := by
  induction events generalizing e with
  | nil => exact absurd hpassed (not_le.mpr hbehind)
  | cons event events ih =>
    obtain ⟨hevent,hrest⟩ := h
    by_cases hnow : (e.step py event).cursor remote < s
    · obtain ⟨t,last,hmem,hpulled⟩ := ih hrest hnow hpassed
      exact ⟨t,last,List.mem_cons_of_mem _ hmem,hpulled⟩
    · -- it is this step that passes the number
      obtain hkept | ⟨last,rfl,hcursor⟩ := e.cursor_step py event remote
      · exact absurd (hkept ▸ hbehind) hnow
      · refine ⟨e,last,List.mem_cons_self,?_⟩
        rw [hcursor, not_lt] at hnow
        have hlast : s ≤ last := (le_max_iff.mp hnow).resolve_left (not_le.mpr hbehind)
        by_cases hdropped : s ≤ last-200
        · exact Or.inl hdropped
        · exact Or.inr ((e.noHole_iff remote last).mpr hevent s
            (max_lt hbehind (not_le.mp hdropped)) hlast)

/-- The pulls of a run leave no hole exactly when each of them is planned for a cluster that has
nothing new or no more numbers than the local log. -/
theorem pulls_leave_no_hole_iff (e : AntiEntropyEngine) (events : List (EngineEvent J)) :
    (∀ before remote last after, events = before ++ .planPull remote last :: after →
      (run (step py) e before).NoHole remote last) ↔
    Along (step py) WithinLocal e events := by
  rw [along_iff]
  constructor
  · intro h before event after hevents
    cases event with
    | append now gap eventId eventType payload source => trivial
    | mergeEvents commits arrivals => trivial
    | planPull remote last => exact (noHole_iff _ _ _).mp (h before remote last after hevents)
  · intro h before remote last after hevents
    exact (noHole_iff _ _ _).mpr (h before (.planPull remote last) after hevents)

/-- With an empty local log, the window of five remote events is empty. -/
theorem empty_log_hole :
    ¬ (⟨EventTable.empty,fun _ => none⟩ : AntiEntropyEngine).NoHole "eu" 5 ∧
      ((⟨EventTable.empty,fun _ => none⟩ : AntiEntropyEngine).planPull "eu" 5).1.cursor "eu" =
        5 := by
  refine ⟨?_,rfl⟩
  rw [noHole_iff]
  decide

end AntiEntropyEngine
end Arsonist.Mesh
