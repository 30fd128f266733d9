import Arsonist.GlobalControl.Versions

/-! A consumer that follows the log of a store with one cursor for a whole namespace. The versions
it compares are counted for each key, and a page leaves out the oldest rows first. -/
namespace Arsonist.GlobalControl
open Arsonist.Library GlobalState

/-- A store and a consumer of its log. The last field is the log as the call found it that
returned an empty page. -/
structure Watch where
  state : GlobalState := {}
  cursor : ℤ := 0
  received : List ChangelogRow := []
  stopped : Option (List ChangelogRow) := none

inductive WatchEvent (V : Type*)
  | write (op : StateOp V)
  | call (limit : ℕ+)

namespace Watch
variable {V : Type*} (codec : JsonCodec V) (nsOpt : Option String)

/-- The largest version that has been received, with those of a page. -/
def nextCursor (cursor : ℤ) (page : List ChangelogRow) : ℤ :=
  page.foldl (fun c row => max c row.newVersion) cursor

def exec (w : Watch) : WatchEvent V → Watch
  | .write op => { w with state := w.state.apply codec op }
  | .call limit =>
    match w.stopped with
    | some _ => w
    | none =>
      match w.state.changelogSince nsOpt w.cursor limit with
      | [] => { w with stopped := some w.state.changelog }
      | row :: page =>
        { w with
          cursor := nextCursor w.cursor (row :: page)
          received := w.received ++ row :: page }

/-- Once the consumer has stopped, it has received what its last call found in the log. -/
def Complete (w : Watch) : Prop :=
  ∀ log, w.stopped = some log → ∀ row ∈ log, selects nsOpt row.ns = true → row ∈ w.received

/-- The rows that a call without a limit would return, the newest first. -/
def pending (w : Watch) : List ChangelogRow := w.state.changelogSince nsOpt w.cursor (-1)

/-- The step leaves nothing behind the cursor of a consumer that has not stopped: a write gets a
version above it, and the rows that a page leaves out have versions above all of the page. -/
def Follows (w : Watch) (e : WatchEvent V) : Prop :=
  w.stopped = none → match e with
    | .write (.put _ ns key _) =>
      selects nsOpt ns = true → w.cursor < w.state.versionAt ns key+1
    | .write (.delete _ _) => True
    | .call limit =>
      ∀ row ∈ (w.pending nsOpt).drop limit, ∀ row' ∈ (w.pending nsOpt).take limit,
        row'.newVersion < row.newVersion

variable {codec nsOpt} {w : Watch}

theorem lt_nextCursor_iff {cursor v : ℤ} {page : List ChangelogRow} :
    nextCursor cursor page < v ↔ cursor < v ∧ ∀ row ∈ page, row.newVersion < v := by
  induction page generalizing cursor with
  | nil => simp [nextCursor]
  | cons row page ih =>
    rw [nextCursor, List.foldl_cons]
    refine ih.trans ?_
    rw [max_lt_iff, List.forall_mem_cons, and_assoc]

theorem le_nextCursor (cursor : ℤ) (page : List ChangelogRow) :
    cursor ≤ nextCursor cursor page ∧ ∀ row ∈ page, row.newVersion ≤ nextCursor cursor page := by
  have h := lt_nextCursor_iff.mp (lt_add_one (nextCursor cursor page))
  exact ⟨Int.lt_add_one_iff.mp h.1,fun row hrow => Int.lt_add_one_iff.mp (h.2 row hrow)⟩

theorem mem_pending {row : ChangelogRow} :
    row ∈ w.pending nsOpt ↔
      row ∈ w.state.changelog ∧ selects nsOpt row.ns = true ∧ w.cursor < row.newVersion := by
  rw [pending, changelogSince, if_pos (by decide), List.mem_reverse, List.mem_filter,
    Bool.and_eq_true, decide_eq_true_iff]

theorem changelogSince_eq_take (limit : ℕ+) :
    w.state.changelogSince nsOpt w.cursor limit = (w.pending nsOpt).take limit := by
  rw [pending, changelogSince, changelogSince, if_neg (by omega), if_pos (by decide)]
  rfl

/-- What a call does: nothing any more, or it is the last one and nothing was pending, or it
takes the newest of the pending rows. -/
theorem exec_call (codec : JsonCodec V) (w : Watch) (limit : ℕ+) :
    w.stopped ≠ none ∧ w.exec codec nsOpt (.call limit) = w ∨
    (w.stopped = none ∧ w.pending nsOpt = [] ∧
      w.exec codec nsOpt (.call limit) = { w with stopped := some w.state.changelog }) ∨
    (w.stopped = none ∧ w.exec codec nsOpt (.call limit) =
      { w with
        cursor := nextCursor w.cursor ((w.pending nsOpt).take limit)
        received := w.received ++ (w.pending nsOpt).take limit }) := by
  unfold exec
  dsimp only
  cases hstopped : w.stopped with
  | some log => exact Or.inl ⟨Option.some_ne_none log,rfl⟩
  | none =>
    dsimp only
    rw [changelogSince_eq_take]
    cases hpage : (w.pending nsOpt).take limit with
    | nil =>
      rw [List.take_eq_nil_iff] at hpage
      exact Or.inr (Or.inl ⟨rfl,hpage.resolve_left limit.ne_zero,rfl⟩)
    | cons row page => exact Or.inr (Or.inr ⟨rfl,rfl⟩)

/-- The rows of the log are told apart by their numbers, and what was received is in the log and
not above the cursor. -/
structure Sound (w : Watch) : Prop where
  indexed : ∀ row ∈ w.state.changelog, row.idx ≤ w.state.changelog.length
  nodup : w.state.changelog.Nodup
  logged : ∀ row ∈ w.received, row ∈ w.state.changelog
  behind : ∀ row ∈ w.received, row.newVersion ≤ w.cursor

theorem Sound.exec (h : w.Sound) (e : WatchEvent V) : (w.exec codec nsOpt e).Sound := by
  cases e with
  | write op =>
    cases op with
    | delete ns key => exact ⟨h.indexed,h.nodup,h.logged,h.behind⟩
    | put now ns key value =>
      refine ⟨?_,?_,fun row hrow => List.mem_append_left _ (h.logged row hrow),h.behind⟩
      · intro row hrow
        change row ∈ w.state.changelog ++ [_] at hrow
        change row.idx ≤ (w.state.changelog ++ [_]).length
        rw [List.length_append, List.length_singleton]
        obtain hrow | hrow := List.mem_append.mp hrow
        · exact (h.indexed row hrow).trans (Nat.le_succ _)
        · obtain rfl := List.mem_singleton.mp hrow
          exact le_rfl
      · change (w.state.changelog ++ [_]).Nodup
        refine List.Nodup.append h.nodup (List.nodup_singleton _) ?_
        intro row hrow hnew
        obtain rfl := List.mem_singleton.mp hnew
        exact absurd (h.indexed _ hrow) (Nat.not_succ_le_self _)
  | call limit =>
    obtain ⟨-,hexec⟩ | ⟨-,-,hexec⟩ | ⟨-,hexec⟩ := exec_call codec w limit
    · rw [hexec]
      exact h
    · rw [hexec]
      exact ⟨h.indexed,h.nodup,h.logged,h.behind⟩
    · rw [hexec]
      obtain ⟨hle,hpage⟩ := le_nextCursor w.cursor ((w.pending nsOpt).take limit)
      refine ⟨h.indexed,h.nodup,fun row hrow => ?_,fun row hrow => ?_⟩
      · obtain hrow | hrow := List.mem_append.mp hrow
        · exact h.logged row hrow
        · exact (mem_pending.mp (List.mem_of_mem_take hrow)).1
      · obtain hrow | hrow := List.mem_append.mp hrow
        · exact (h.behind row hrow).trans hle
        · exact hpage row hrow

theorem sound_init : ({} : Watch).Sound := ⟨nofun,.nil,nofun,nofun⟩

/-- What a consumer that follows keeps: a row it has not received is ahead of its cursor, and when
it stops there is none. -/
structure Current (nsOpt : Option String) (w : Watch) : Prop where
  ahead : w.stopped = none → ∀ row ∈ w.state.changelog, selects nsOpt row.ns = true →
    row ∉ w.received → w.cursor < row.newVersion
  complete : w.Complete nsOpt

theorem Current.exec (h : w.Current nsOpt) {e : WatchEvent V} (he : w.Follows nsOpt e) :
    (w.exec codec nsOpt e).Current nsOpt := by
  cases e with
  | write op =>
    cases op with
    | delete ns key => exact ⟨h.ahead,h.complete⟩
    | put now ns key value =>
      refine ⟨fun hstopped row hrow hselected hnew => ?_,h.complete⟩
      change row ∈ w.state.changelog ++ [_] at hrow
      obtain hrow | hrow := List.mem_append.mp hrow
      · exact h.ahead hstopped row hrow hselected hnew
      · obtain rfl := List.mem_singleton.mp hrow
        exact he hstopped hselected
  | call limit =>
    obtain ⟨-,hexec⟩ | ⟨hstopped,hpending,hexec⟩ | ⟨hstopped,hexec⟩ := exec_call codec w limit
    · rw [hexec]
      exact h
    · rw [hexec]
      refine ⟨nofun,fun log hlog row hrow hselected => ?_⟩
      obtain rfl := Option.some.inj hlog
      by_contra hnew
      have hmem : row ∈ w.pending nsOpt :=
        mem_pending.mpr ⟨hrow,hselected,h.ahead hstopped row hrow hselected hnew⟩
      rw [hpending] at hmem
      cases hmem
    · rw [hexec]
      refine ⟨fun _ row hrow hselected hnew => ?_,fun log hlog => ?_⟩
      · have hahead := h.ahead hstopped row hrow hselected
          fun hold => hnew (List.mem_append_left _ hold)
        have hmem : row ∈ (w.pending nsOpt).take limit ++ (w.pending nsOpt).drop limit := by
          rw [List.take_append_drop]
          exact mem_pending.mpr ⟨hrow,hselected,hahead⟩
        obtain hpage | hleft := List.mem_append.mp hmem
        · exact absurd (List.mem_append_right _ hpage) hnew
        · exact lt_nextCursor_iff.mpr ⟨hahead,he hstopped row hleft⟩
      · rw [hstopped] at hlog
        cases hlog

theorem current_init : ({} : Watch).Current nsOpt := ⟨fun _ => nofun,nofun⟩

/-- A row is behind the cursor and has not been received: it never will be. -/
structure Lost (nsOpt : Option String) (w : Watch) : Prop where
  behind : w.stopped = none → ∃ row ∈ w.state.changelog, selects nsOpt row.ns = true ∧
    row ∉ w.received ∧ row.newVersion ≤ w.cursor
  missed : ∀ log, w.stopped = some log → ∃ row ∈ log, selects nsOpt row.ns = true ∧
    row ∉ w.received

theorem Lost.exec (h : w.Lost nsOpt) (e : WatchEvent V) : (w.exec codec nsOpt e).Lost nsOpt := by
  cases e with
  | write op =>
    refine ⟨fun hstopped => ?_,h.missed⟩
    obtain ⟨row,hrow,hselected,hnew,hbehind⟩ := h.behind hstopped
    refine ⟨row,?_,hselected,hnew,hbehind⟩
    cases op with
    | delete ns key => exact hrow
    | put now ns key value => exact List.mem_append_left _ hrow
  | call limit =>
    obtain ⟨-,hexec⟩ | ⟨hstopped,-,hexec⟩ | ⟨hstopped,hexec⟩ := exec_call codec w limit
    · rw [hexec]
      exact h
    · rw [hexec]
      refine ⟨nofun,fun log hlog => ?_⟩
      obtain rfl := Option.some.inj hlog
      obtain ⟨row,hrow,hselected,hnew,-⟩ := h.behind hstopped
      exact ⟨row,hrow,hselected,hnew⟩
    · rw [hexec]
      refine ⟨fun _ => ?_,fun log hlog => ?_⟩
      · obtain ⟨row,hrow,hselected,hnew,hbehind⟩ := h.behind hstopped
        refine ⟨row,hrow,hselected,fun hmem => ?_,hbehind.trans (le_nextCursor _ _).1⟩
        obtain hold | hpage := List.mem_append.mp hmem
        · exact hnew hold
        · exact hbehind.not_gt (mem_pending.mp (List.mem_of_mem_take hpage)).2.2
      · rw [hstopped] at hlog
        cases hlog

/-- A step that does not follow loses a row. -/
theorem lost_of_not_follows (h : w.Sound) {e : WatchEvent V} (he : ¬w.Follows nsOpt e) :
    (w.exec codec nsOpt e).Lost nsOpt := by
  obtain ⟨hstopped,he⟩ := Classical.not_imp.mp he
  cases e with
  | write op =>
    cases op with
    | delete ns key => exact absurd trivial he
    | put now ns key value =>
      obtain ⟨hselected,hbehind⟩ := Classical.not_imp.mp he
      refine ⟨fun _ => ⟨_,List.mem_append_right _ (List.mem_singleton_self _),hselected,?_,
        not_lt.mp hbehind⟩,fun log hlog => ?_⟩
      · intro hmem
        exact absurd (h.indexed _ (h.logged _ hmem)) (Nat.not_succ_le_self _)
      · exact absurd (hstopped.symm.trans hlog) (Option.some_ne_none log).symm
  | call limit =>
    obtain ⟨hsome,-⟩ | ⟨-,hpending,-⟩ | ⟨-,hexec⟩ := exec_call codec w limit
    · exact absurd hstopped hsome
    · rw [hpending] at he
      exact absurd (fun row hrow => by simp at hrow) he
    · rw [hexec]
      simp only [not_forall, not_lt] at he
      obtain ⟨row,hleft,row',hpage,hle⟩ := he
      obtain ⟨hrow,hselected,hahead⟩ := mem_pending.mp (List.mem_of_mem_drop hleft)
      refine ⟨fun _ => ⟨row,hrow,hselected,fun hmem => ?_,
        hle.trans ((le_nextCursor _ _).2 row' hpage)⟩,fun log hlog => ?_⟩
      · obtain hold | hmem := List.mem_append.mp hmem
        · exact (h.behind row hold).not_gt hahead
        · have hnodup : (w.pending nsOpt).Nodup := by
            rw [pending, changelogSince, if_pos (by decide), List.nodup_reverse]
            exact h.nodup.filter _
          exact List.disjoint_take_drop hnodup le_rfl hmem hleft
      · exact absurd (hstopped.symm.trans hlog) (Option.some_ne_none log).symm

/-- A consumer that has stopped has received everything exactly when every step followed. -/
theorem complete_iff (codec : JsonCodec V) (nsOpt : Option String) (es : List (WatchEvent V)) :
    (run (exec codec nsOpt) {} es).Complete nsOpt ↔
      ((run (exec codec nsOpt) {} es).stopped ≠ none →
        Along (exec codec nsOpt) (Follows nsOpt) {} es) := by
  constructor
  · intro hcomplete hstopped
    rw [along_iff]
    rintro p e q rfl
    by_contra hfollows
    have hsound : (run (exec codec nsOpt) {} p).Sound :=
      run_always (fun w e h => h.exec e) sound_init p
    have hlost : (run (exec codec nsOpt) {} (p ++ e :: q)).Lost nsOpt := by
      rw [run_append, run_cons]
      exact run_always (fun w e h => h.exec e) (lost_of_not_follows hsound hfollows) q
    obtain ⟨log,hlog⟩ := Option.ne_none_iff_exists'.mp hstopped
    obtain ⟨row,hrow,hselected,hnew⟩ := hlost.missed log hlog
    exact hnew (hcomplete log hlog row hrow hselected)
  · intro h log hlog
    have halong := h (hlog ▸ Option.some_ne_none log)
    exact (run_invariant (fun w e he hw => Current.exec hw he) halong
      current_init).complete log hlog

/-- The first write of a second key has the version 1, which is not above the cursor. -/
theorem not_complete : ¬∀ (nsOpt : Option String) (es : List (WatchEvent Json)),
    (run (exec jsonCodec nsOpt) {} es).Complete nsOpt := by
  intro h
  have hrow := h (some "regions")
    [.write (.put 0 "regions" "eu" .null),.call 100,.write (.put 1 "regions" "us" .null),
      .call 100] _ rfl ⟨2,"regions","us",none,1,1⟩ (by decide) (by decide)
  exact absurd hrow (by decide)

end Watch
end Arsonist.GlobalControl
