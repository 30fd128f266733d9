import Arsonist.Library.StableSort
import Arsonist.Routing.SmartFailover
import Mathlib.Data.Prod.Lex

/-! Where one pass of the failover monitor sends the workload. A target is chosen by its status and
its saturation, but not by what makes the monitor fail it over itself. -/
namespace Arsonist.Routing
open Arsonist.Library Arsonist.Regions

/-- What the candidates are sorted by. -/
def failoverKey (r : RegionRecord) : ℤ ×ₗ WithBot (WithTop ℚ) :=
  toLex (r.failoverPriority,r.workloadSaturation.rank)

/-- The order in which the candidates are tried. -/
def Precedes (a b : RegionRecord) : Prop :=
  failoverKey a < failoverKey b ∨ failoverKey a = failoverKey b ∧ a.regionId < b.regionId

theorem Precedes.asymm {a b : RegionRecord} (h : Precedes a b) : ¬Precedes b a := by
  intro h'
  obtain h | ⟨heq,h⟩ := h
  · obtain h' | ⟨heq',-⟩ := h'
    · exact h.asymm h'
    · exact h.ne heq'.symm
  · obtain h' | ⟨-,h'⟩ := h'
    · exact h'.ne heq.symm
    · exact h.asymm h'

/-- A region that takes over goes on serving, and is not failed over by the same measures. -/
def SoundEvent (reg : RegionRegistry) (event : FailoverEvent) : Prop :=
  event.targetRegion ≠ event.sourceRegion ∧
    ∃ target, reg.get event.targetRegion = some target ∧
      target.status ≠ .draining ∧ target.status ≠ .offline ∧ evaluateRegion target = none

section Condition
variable (reg : RegionRegistry) (failing : RegionRecord)

/-- Some region within its thresholds can take over. -/
def Relievable : Prop :=
  ∃ t, reg.get t.regionId = some t ∧ (Configured failing t ∨ Spare failing t) ∧ ¬Overloaded t

/-- The other region comes first, and hands over to a region within its thresholds. -/
def DrainedBefore (other : RegionRecord) : Prop :=
  other.regionId < failing.regionId ∧ Relievable reg other

/-- Of the regions of the registry before the pass, one within its thresholds comes first for the
failing region. -/
structure SoundlyRelieved : Prop where
  configured : ∀ t, reg.get t.regionId = some t → Configured failing t → Overloaded t →
    DrainedBefore reg failing t
  spare : (∀ t, reg.get t.regionId = some t → Configured failing t → Overloaded t) →
    ∀ t, reg.get t.regionId = some t → Spare failing t → Overloaded t →
      DrainedBefore reg failing t ∨
        ∃ t', reg.get t'.regionId = some t' ∧ Spare failing t' ∧ ¬Overloaded t' ∧ Precedes t' t

end Condition

section Selection
variable {reg : RegionRegistry} {failing target other : RegionRecord}

theorem sortsBefore_iff (ha : target.workloadSaturation ≠ .nan)
    (hb : other.workloadSaturation ≠ .nan) :
    SortsBefore target other ↔ failoverKey target < failoverKey other := by
  rw [SortsBefore, PyFloat.lt_iff_rank ha hb, failoverKey, failoverKey, Prod.Lex.toLex_lt_toLex]

theorem spare_of_selected (hconf : configuredTarget reg failing = none)
    (h : selectFailoverTarget reg failing = some target) :
    reg.get target.regionId = some target ∧ Spare failing target := by
  obtain ⟨hget,hc | hs⟩ := selectFailoverTarget_sound h
  · rw [configuredTarget_eq_some_iff.mpr ⟨hget,hc⟩] at hconf
    cases hconf
  · exact ⟨hget,hs⟩

/-- Without a configured target, the candidate that comes first is taken. -/
theorem precedes_of_selected (hconf : configuredTarget reg failing = none)
    (h : selectFailoverTarget reg failing = some target)
    (hget : reg.get other.regionId = some other) (hspare : Spare failing other)
    (hne : other.regionId ≠ target.regionId) : Precedes target other := by
  rw [selectFailoverTarget, hconf] at h
  have hr : ∀ a ∈ failoverCandidates reg failing, ∀ b ∈ failoverCandidates reg failing,
      ¬SortsBefore b a ↔ failoverKey a ≤ failoverKey b := by
    intro a ha b hb
    rw [sortsBefore_iff, not_lt]
    · exact PyFloat.ne_nan_of_lt (mem_failoverCandidates.mp hb).2.2.2
    · exact PyFloat.ne_nan_of_lt (mem_failoverCandidates.mp ha).2.2.2
  obtain ⟨p,q,hpq,hp,hq⟩ := head?_insertionSort hr h
  have hmem := mem_failoverCandidates.mpr ⟨hget,hspare⟩
  have hsorted : (failoverCandidates reg failing).Pairwise fun a b => a.regionId < b.regionId :=
    ((reg.listRegions_sorted.filter _).filter _).filter _
  rw [hpq] at hmem hsorted
  rw [List.mem_append, List.mem_cons] at hmem
  obtain hmem | rfl | hmem := hmem
  · exact Or.inl (hp other hmem)
  · exact absurd rfl hne
  · obtain hlt | heq := (hq other hmem).lt_or_eq
    · exact Or.inl hlt
    · have htail := (List.pairwise_append.mp hsorted).2.1
      exact Or.inr ⟨heq,(List.pairwise_cons.mp htail).1 other hmem⟩

end Selection

section Pass
variable {reg : RegionRegistry} {p : List RegionRecord} {t : SmartFailover}
  {failing r : RegionRecord}

theorem Configured.isLive (h : Configured failing r) : IsLive r := Or.inl h.2.2

theorem not_isLive (h : r.status = .draining) : ¬IsLive r := by
  simp [IsLive, h]

theorem not_failing (hlive : IsLive r) (hover : ¬Overloaded r) : ¬Failing r := by
  rintro (hoffline | hfails)
  · simp [IsLive, hoffline] at hlive
  · exact hover hfails

theorem regionId_ne {a b : RegionRecord} (ha : reg.get a.regionId = some a)
    (hb : reg.get b.regionId = some b) (hover : Overloaded a) (hsound : ¬Overloaded b) :
    a.regionId ≠ b.regionId := by
  intro hid
  rw [hid, hb, Option.some.injEq] at ha
  exact hsound (ha ▸ hover)

theorem SmartFailover.get_of_live_turn
    (hget : (SmartFailover.turn t failing).registry.get r.regionId = some r) (hlive : IsLive r) :
    t.registry.get r.regionId = some r := by
  rw [turn, get_checkRegion] at hget
  split_ifs at hget with hdrained
  · obtain ⟨r',-,rfl⟩ := Option.map_eq_some_iff.mp hget
    exact absurd hlive (not_isLive rfl)
  · exact hget

/-- After the turns of some regions of the snapshot, those that failed and could hand over to a
region within its thresholds drain, and the others are as they were. -/
structure Settled (reg : RegionRegistry) (p : List RegionRecord) (t : SmartFailover) : Prop where
  live : ∀ r, t.registry.get r.regionId = some r → IsLive r → reg.get r.regionId = some r
  keeps : ∀ r, reg.get r.regionId = some r → ¬(r ∈ p ∧ Failing r ∧ Relievable reg r) →
    t.registry.get r.regionId = some r
  drains : ∀ r ∈ p, Failing r → Relievable reg r →
    t.registry.get r.regionId = some (r.setStatus .draining)

namespace Settled
variable (h : Settled reg p t)
include h

theorem get_of_not_overloaded (hlive : IsLive r) (hover : ¬Overloaded r) :
    t.registry.get r.regionId = some r ↔ reg.get r.regionId = some r := by
  refine ⟨fun hget => h.live r hget hlive,fun hget => h.keeps r hget ?_⟩
  exact fun hdrained => not_failing hlive hover hdrained.2.1

variable (hbefore : ∀ r, reg.get r.regionId = some r → (r ∈ p ↔ r.regionId < failing.regionId))
include hbefore

theorem get_of_overloaded (hlive : IsLive r) (hover : Overloaded r) :
    t.registry.get r.regionId = some r ↔
      reg.get r.regionId = some r ∧ ¬DrainedBefore reg failing r := by
  constructor
  · intro hget
    have hstored := h.live r hget hlive
    refine ⟨hstored,?_⟩
    rintro ⟨hlt,hrelievable⟩
    have hdrains := h.drains r ((hbefore r hstored).mpr hlt) (Or.inr hover) hrelievable
    rw [hget, Option.some.injEq] at hdrains
    exact not_isLive (congrArg RegionRecord.status hdrains) hlive
  · rintro ⟨hstored,hnot⟩
    refine h.keeps r hstored ?_
    rintro ⟨hmem,-,hrelievable⟩
    exact hnot ⟨(hbefore r hstored).mp hmem,hrelievable⟩

/-- If no region over a threshold is selected, each such region drains first or comes after one
that is within its thresholds. -/
theorem soundlyRelieved
    (hselected : ∀ y, selectFailoverTarget t.registry failing = some y → ¬Overloaded y) :
    SoundlyRelieved reg failing := by
  constructor
  · intro y hstored hconf hover
    by_contra hnot
    have hget := (h.get_of_overloaded hbefore hconf.isLive hover).mpr ⟨hstored,hnot⟩
    refine hselected y ?_ hover
    rw [selectFailoverTarget, configuredTarget_eq_some_iff.mpr ⟨hget,hconf⟩]
  · intro hall y hstored hspare hover
    by_contra hnot
    rw [not_or] at hnot
    have hget := (h.get_of_overloaded hbefore hspare.1 hover).mpr ⟨hstored,hnot.1⟩
    obtain ⟨z,hz⟩ := Option.isSome_iff_exists.mp
      (selectFailoverTarget_isSome_iff.mpr ⟨y,hget,Or.inr hspare⟩)
    have hsound := hselected z hz
    cases hconf : configuredTarget t.registry failing with
    | some z' =>
      rw [selectFailoverTarget, hconf, Option.some.injEq] at hz
      subst hz
      obtain ⟨hzget,hzconf⟩ := configuredTarget_eq_some_iff.mp hconf
      exact hsound (hall z' (h.live z' hzget hzconf.isLive) hzconf)
    | none =>
      obtain ⟨hzget,hzspare⟩ := spare_of_selected hconf hz
      have hfirst := precedes_of_selected hconf hz hget hspare
        (regionId_ne hget hzget hover hsound)
      exact hnot.2 ⟨z,h.live z hzget hzspare.1,hzspare,hsound,hfirst⟩

theorem not_overloaded_of_selected (hcond : SoundlyRelieved reg failing) {y : RegionRecord}
    (hy : selectFailoverTarget t.registry failing = some y) : ¬Overloaded y := by
  intro hover
  cases hconf : configuredTarget t.registry failing with
  | some y' =>
    rw [selectFailoverTarget, hconf, Option.some.injEq] at hy
    subst hy
    obtain ⟨hget,hyconf⟩ := configuredTarget_eq_some_iff.mp hconf
    obtain ⟨hstored,hnot⟩ := (h.get_of_overloaded hbefore hyconf.isLive hover).mp hget
    exact hnot (hcond.configured y' hstored hyconf hover)
  | none =>
    obtain ⟨hget,hspare⟩ := spare_of_selected hconf hy
    obtain ⟨hstored,hnot⟩ := (h.get_of_overloaded hbefore hspare.1 hover).mp hget
    -- a configured target within its thresholds would still be active
    have hall : ∀ z, reg.get z.regionId = some z → Configured failing z → Overloaded z := by
      intro z hz hzconf
      by_contra hsound
      have hzget := (h.get_of_not_overloaded hzconf.isLive hsound).mpr hz
      rw [configuredTarget_eq_some_iff.mpr ⟨hzget,hzconf⟩] at hconf
      cases hconf
    obtain hdrained | ⟨z,hz,hzspare,hsound,hfirst⟩ := hcond.spare hall y hstored hspare hover
    · exact hnot hdrained
    · have hzget := (h.get_of_not_overloaded hzspare.1 hsound).mpr hz
      exact hfirst.asymm (precedes_of_selected hconf hy hzget hzspare
        (regionId_ne hget hzget hover hsound).symm)

/-- The region that is selected is within its thresholds exactly when one that is comes first. -/
theorem selected_iff :
    (∀ y, selectFailoverTarget t.registry failing = some y → ¬Overloaded y) ↔
      SoundlyRelieved reg failing :=
  ⟨h.soundlyRelieved hbefore,fun hcond _ => h.not_overloaded_of_selected hbefore hcond⟩

omit hbefore in
/-- Where the region that is selected is within its thresholds, one is selected whenever the
registry before the pass has one. -/
theorem hasTarget_iff
    (hselected : ∀ y, selectFailoverTarget t.registry failing = some y → ¬Overloaded y) :
    HasTarget t.registry failing ↔ Relievable reg failing := by
  constructor
  · intro htarget
    obtain ⟨y,hy⟩ := Option.isSome_iff_exists.mp (selectFailoverTarget_isSome_iff.mpr htarget)
    obtain ⟨hget,hchosen⟩ := selectFailoverTarget_sound hy
    have hlive : IsLive y := hchosen.elim Configured.isLive And.left
    exact ⟨y,h.live y hget hlive,hchosen,hselected y hy⟩
  · rintro ⟨y,hstored,hchosen,hover⟩
    have hlive : IsLive y := hchosen.elim Configured.isLive And.left
    exact ⟨y,(h.get_of_not_overloaded hlive hover).mpr hstored,hchosen⟩

/-- The turn of a region whose target is within its thresholds. -/
theorem turn (hstored : reg.get failing.regionId = some failing)
    (hsound : Failing failing → SoundlyRelieved reg failing) :
    Settled reg (p ++ [failing]) (SmartFailover.turn t failing) := by
  have hnew : failing ∉ p := fun hmem => lt_irrefl _ ((hbefore failing hstored).mp hmem)
  have hget := h.keeps failing hstored fun hdrained => hnew hdrained.1
  have hsome : (t.checkRegion failing).2.isSome ↔ Failing failing ∧ Relievable reg failing := by
    rw [SmartFailover.checkRegion_isSome_iff]
    refine and_congr_right fun hfails => h.hasTarget_iff ?_
    exact (h.selected_iff hbefore).mpr (hsound hfails)
  have hturn : ∀ id, (SmartFailover.turn t failing).registry.get id = _ := fun id =>
    SmartFailover.get_checkRegion id
  constructor
  · exact fun r hr hlive => h.live r (SmartFailover.get_of_live_turn hr hlive) hlive
  · intro r hr hnot
    have hkept := h.keeps r hr fun hdrained =>
      hnot ⟨List.mem_append_left _ hdrained.1,hdrained.2⟩
    rw [hturn, if_neg, hkept]
    rintro ⟨hid,hdrained⟩
    rw [hid, hstored, Option.some.injEq] at hr
    subst hr
    exact hnot ⟨List.mem_append_right p List.mem_cons_self,hsome.mp hdrained⟩
  · intro r hr hfails hrelievable
    rw [hturn]
    obtain hr | hr := List.mem_append.mp hr
    · rw [h.drains r hr hfails hrelievable]
      split_ifs
      · rfl
      · rfl
    · obtain rfl := List.mem_singleton.mp hr
      rw [if_pos ⟨rfl,hsome.mpr ⟨hfails,hrelievable⟩⟩, hget]
      rfl

end Settled

end Pass

namespace SmartFailover
variable {s : SmartFailover}

theorem settled_nil (s : SmartFailover) : Settled s.registry [] s where
  live _ h _ := h
  keeps _ h _ := h
  drains _ h := absurd h List.not_mem_nil

/-- The regions of a snapshot before one of them are those with smaller ids. -/
theorem mem_before_iff {p q : List RegionRecord} {failing r : RegionRecord}
    (hpq : s.registry.listRegions = p ++ failing :: q)
    (h : s.registry.get r.regionId = some r) : r ∈ p ↔ r.regionId < failing.regionId := by
  have hmem := RegionRegistry.mem_listRegions.mpr h
  have hsorted := s.registry.listRegions_sorted
  rw [hpq] at hmem hsorted
  obtain ⟨-,htail,hcross⟩ := List.pairwise_append.mp hsorted
  constructor
  · intro hr
    exact hcross r hr failing List.mem_cons_self
  · intro hlt
    rw [List.mem_append, List.mem_cons] at hmem
    obtain hr | rfl | hr := hmem
    · exact hr
    · exact absurd hlt (lt_irrefl _)
    · exact absurd hlt ((List.pairwise_cons.mp htail).1 r hr).asymm

/-- As long as the failing regions hand over to regions within their thresholds, the registry is
known at each turn. -/
theorem settled_run {p q : List RegionRecord} (hpq : s.registry.listRegions = p ++ q)
    (h : ∀ r ∈ p, Failing r → SoundlyRelieved s.registry r) :
    Settled s.registry p (run turn s p) := by
  induction p using List.reverseRecOn generalizing q with
  | nil => exact settled_nil s
  | append_singleton p failing ih =>
    rw [List.append_assoc] at hpq
    have hprev := ih hpq fun r hr => h r (List.mem_append_left _ hr)
    have hstored : s.registry.get failing.regionId = some failing := by
      rw [← RegionRegistry.mem_listRegions, hpq]
      exact List.mem_append_right p List.mem_cons_self
    rw [run_concat]
    exact hprev.turn (fun r => mem_before_iff hpq) hstored
      (h failing (List.mem_append_right p List.mem_cons_self))

/-- Each turn of a failing region selects a region within its thresholds, if any. -/
def TargetsSound (s : SmartFailover) : Prop :=
  ∀ x ∈ s.turns, Failing x.2 →
    ∀ y, selectFailoverTarget x.1.registry x.2 = some y → ¬Overloaded y

theorem targetsSound_iff :
    s.TargetsSound ↔
      ∀ r, s.registry.get r.regionId = some r → Failing r → SoundlyRelieved s.registry r := by
  constructor
  · intro hsound
    have hall : ∀ p q, s.registry.listRegions = p ++ q →
        ∀ r ∈ p, Failing r → SoundlyRelieved s.registry r := by
      intro p
      induction p using List.reverseRecOn with
      | nil => simp
      | append_singleton p failing ih =>
        intro q hpq r hr hfails
        rw [List.append_assoc] at hpq
        obtain hr | hr := List.mem_append.mp hr
        · exact ih _ hpq r hr hfails
        · obtain rfl := List.mem_singleton.mp hr
          have hsettled := settled_run hpq (ih _ hpq)
          rw [← hsettled.selected_iff fun r => mem_before_iff hpq]
          exact hsound (run turn s p,r) (mem_steps.mpr ⟨p,q,hpq,rfl⟩) hfails
    intro r hr
    exact hall _ [] (List.append_nil _).symm r (RegionRegistry.mem_listRegions.mpr hr)
  · rintro hcond ⟨t,failing⟩ hx hfails
    obtain ⟨p,q,hpq,rfl⟩ := mem_steps.mp hx
    have hsettled := settled_run hpq fun r hr => hcond r (by
      rw [← RegionRegistry.mem_listRegions, hpq]
      exact List.mem_append_left _ hr)
    exact (hsettled.selected_iff fun r => mem_before_iff hpq).mpr
      (hcond failing (get_of_turn hx).1 hfails)

/-- What is live at some turn is as it was before the pass. -/
theorem get_of_live {t : SmartFailover} {failing r : RegionRecord} (hx : (t,failing) ∈ s.turns)
    (hget : t.registry.get r.regionId = some r) (hlive : IsLive r) :
    s.registry.get r.regionId = some r := by
  obtain ⟨p,q,-,rfl⟩ := mem_steps.mp hx
  clear hx
  induction p using List.reverseRecOn with
  | nil => exact hget
  | append_singleton p failing' ih =>
    rw [run_concat] at hget
    exact ih (get_of_live_turn hget hlive)

/-- An event is sound when its target is within its thresholds at the turn. -/
theorem soundEvent_iff {t : SmartFailover} {failing target : RegionRecord} {event : FailoverEvent}
    (hx : (t,failing) ∈ s.turns) (hfails : Failing failing)
    (htarget : selectFailoverTarget t.registry failing = some target)
    (hsource : event.sourceRegion = failing.regionId)
    (hdest : event.targetRegion = target.regionId) :
    SoundEvent s.checkAll.1.registry event ↔ ¬Overloaded target := by
  obtain ⟨hget,hchosen⟩ := selectFailoverTarget_sound htarget
  have hlive : IsLive target := hchosen.elim Configured.isLive And.left
  have hstored := get_of_live hx hget hlive
  obtain ⟨u,hu⟩ := exists_turn hstored
  obtain ⟨-,-,hend⟩ := get_of_turn hu
  rw [SoundEvent, hsource, hdest, hend]
  constructor
  · rintro ⟨-,y,hy,-,-,heval⟩ hover
    rw [Option.some.injEq] at hy
    subst hy
    refine evaluateRegion_eq_none_iff.mp heval (Or.inr ?_)
    split_ifs
    · exact hover
    · exact hover
  · intro hover
    have hserves : ¬(u.checkRegion target).2.isSome := fun hsome =>
      not_failing hlive hover (checkRegion_isSome_iff.mp hsome).1
    rw [if_neg hserves]
    refine ⟨?_,target,rfl,?_,?_,evaluateRegion_eq_none_iff.mpr (not_failing hlive hover)⟩
    · intro hid
      have hself := (get_of_turn hx).1
      rw [← hid, hstored, Option.some.injEq] at hself
      exact not_failing hlive hover (hself ▸ hfails)
    · exact fun hdraining => not_isLive hdraining hlive
    · exact fun hoffline => not_failing hlive hover (Or.inl hoffline)

/-- All targets of a pass are sound exactly when each failing region is soundly relieved. -/
theorem soundEvents_iff (s : SmartFailover) :
    (∀ event ∈ s.checkAll.2, SoundEvent s.checkAll.1.registry event) ↔
      ∀ r, s.registry.get r.regionId = some r → Failing r → SoundlyRelieved s.registry r := by
  rw [← targetsSound_iff]
  constructor
  · rintro hall ⟨t,failing⟩ hx hfails y hy
    obtain ⟨trigger,target,-,htarget,hturn⟩ | ⟨hnone | hnone,-⟩ := t.checkRegion_cases failing
    · rw [hy, Option.some.injEq] at htarget
      subst htarget
      have hevent := hall _ (mem_checkAll.mpr ⟨_,hx,congrArg Prod.snd hturn⟩)
      exact (soundEvent_iff hx hfails hy rfl rfl).mp hevent
    · exact absurd hfails (evaluateRegion_eq_none_iff.mp hnone)
    · rw [hy] at hnone
      cases hnone
  · intro hsound event hevent
    obtain ⟨⟨t,failing⟩,hx,hturn⟩ := mem_checkAll.mp hevent
    obtain ⟨trigger,target,htrigger,htarget,hcheck⟩ | ⟨-,hcheck⟩ := t.checkRegion_cases failing
    · have hfails : Failing failing := by
        by_contra hnot
        rw [evaluateRegion_eq_none_iff.mpr hnot] at htrigger
        cases htrigger
      rw [hcheck, Option.some.injEq] at hturn
      subst hturn
      exact (soundEvent_iff hx hfails htarget rfl rfl).mpr
        (hsound _ hx hfails target htarget)
    · rw [hcheck] at hturn
      cases hturn

/-- Two regions are slow at once, and one of them is the target of the other. -/
def slowPair : SmartFailover where
  registry :=
    (({} : RegionRegistry).register 0
      { regionId := "eu", avgLatencyMs := .number 2000, failoverTarget := some "us" }).register 0
      { regionId := "us", avgLatencyMs := .number 2000 }

/-- The workload of one slow region goes to the other one. -/
theorem slowPair_unsound :
    ¬∀ (s : SmartFailover), ∀ event ∈ s.checkAll.2, SoundEvent s.checkAll.1.registry event := by
  intro h
  obtain ⟨-,target,hget,-,-,heval⟩ := h slowPair
    { sourceRegion := "eu", targetRegion := "us", trigger := .latencySpike } (by decide +kernel)
  have hslow : (slowPair.checkAll.1.registry.get "us").map evaluateRegion =
      some (some .latencySpike) := by decide +kernel
  rw [hget, Option.map_some, heval] at hslow
  cases hslow

end SmartFailover
end Arsonist.Routing
