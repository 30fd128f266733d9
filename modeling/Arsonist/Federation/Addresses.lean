import Arsonist.Federation.Processes

/-! One cluster per address. A registration checks the whole table, but a heartbeat or a sweep
that is under way writes back the address that it has read. -/
namespace Arsonist.Federation
open Arsonist.Library Arsonist.Mesh

namespace FederationRegistry

/-- No two stored clusters have the same address. -/
def AddressesUnique (reg : FederationRegistry) : Prop :=
  ∀ i j c d, reg.getCluster i = some c → reg.getCluster j = some d →
    normalizeCpUrl c.controlPlaneUrl = normalizeCpUrl d.controlPlaneUrl → i = j

/-- The record carries the stored address of its cluster, or one that no other cluster has. -/
def AddressFree (reg : FederationRegistry) (w : ClusterRecord) : Prop :=
  (∃ stored, reg.getCluster w.clusterId = some stored ∧
    normalizeCpUrl stored.controlPlaneUrl = normalizeCpUrl w.controlPlaneUrl) ∨
  ∀ j d, j ≠ w.clusterId → reg.getCluster j = some d →
    normalizeCpUrl d.controlPlaneUrl ≠ normalizeCpUrl w.controlPlaneUrl

variable {reg : FederationRegistry}

theorem addressesUnique_upsert {w : ClusterRecord} (h : reg.AddressesUnique) :
    (reg.upsertCluster w).AddressesUnique ↔ reg.AddressFree w := by
  constructor
  · intro hafter
    right
    intro j d hj hd hsame
    have hw : (reg.upsertCluster w).getCluster w.clusterId = some w := by
      rw [getCluster_upsertCluster, if_pos rfl]
    have hd' : (reg.upsertCluster w).getCluster j = some d := by
      rw [getCluster_upsertCluster, if_neg hj, hd]
    exact hj (hafter j w.clusterId d w hd' hw hsame)
  · intro hfree
    -- the own address is free because the addresses are unique
    have hothers : ∀ j d, j ≠ w.clusterId → reg.getCluster j = some d →
        normalizeCpUrl d.controlPlaneUrl ≠ normalizeCpUrl w.controlPlaneUrl := by
      obtain ⟨stored,hstored,hown⟩ | hfree := hfree
      · intro j d hj hd hsame
        exact hj (h j w.clusterId d stored hd hstored (hsame.trans hown.symm))
      · exact hfree
    intro i j c d hc hd hsame
    rw [getCluster_upsertCluster] at hc hd
    split at hc <;> split at hd
    · rename_i hi hj
      rw [hi, hj]
    · rename_i hi hj
      obtain rfl := Option.some.inj hc
      exact absurd hsame.symm (hothers j d hj hd)
    · rename_i hi hj
      obtain rfl := Option.some.inj hd
      exact absurd hsame (hothers i c hi hc)
    · exact h i j c d hc hd hsame

/-- A registration that is not refused finds its address free. -/
theorem addressFree_registration {now : ℚ} {body : ClusterRegistration}
    (h : urlHolder reg body = none) : reg.AddressFree (registrationRecord reg now body) := by
  right
  intro j d hj hd hsame
  have hid : d.clusterId = j := clusterId_of_getCluster hd
  rw [urlHolder, List.find?_eq_none] at h
  have hmem : d ∈ reg.listClusters := by
    rw [mem_listClusters, hid]
    exact hd
  have hne : d.clusterId ≠ body.clusterId := by
    rw [hid]
    exact hj
  have hsame' : normalizeCpUrl d.controlPlaneUrl = normalizeCpUrl body.controlPlaneUrl := hsame
  exact h d hmem (by simp [hne, hsame'])

end FederationRegistry

namespace Controller
open FederationRegistry

/-- A heartbeat or a sweep that writes a cluster finds the address that it has read still stored
for that cluster, or held by no other cluster. -/
def KeepsAddress (s : Controller) (_ : ℕ) (p : Process) (_ : Option String) : Prop :=
  ∀ w, writtenCluster p = some w → s.shared.registry.AddressFree w

theorem addressesUnique_next {s : ControllerState} {p : Process} {pushError : Option String}
    (h : s.registry.AddressesUnique) :
    (next s p pushError).1.registry.AddressesUnique ↔
      ∀ w, writtenCluster p = some w → s.registry.AddressFree w := by
  rw [registry_next]
  cases hjob : savedJob s p pushError with
  | some job =>
    refine iff_of_true (fun i j c d hc hd => h i j c d hc hd) fun w hw => ?_
    rw [writtenCluster_of_savedJob hjob] at hw
    cases hw
  | none =>
    cases hp : writtenCluster p with
    | none => exact iff_of_true h fun w hw => by cases hw
    | some w =>
      refine (addressesUnique_upsert h).trans ⟨fun hfree v hv => ?_,fun hfree => hfree w rfl⟩
      exact Option.some.inj hv ▸ hfree

theorem addressesUnique_outside {s : ControllerState} (e : Outside)
    (h : s.registry.AddressesUnique) : (outside s e).registry.AddressesUnique := by
  cases e with
  | clock now => exact h
  | register body =>
    rw [outside]
    cases hholder : urlHolder s.registry body with
    | some c => exact h
    | none => exact (addressesUnique_upsert h).mpr (addressFree_registration hholder)

/-- The addresses are unique in every state of a run if and only if no heartbeat and no sweep
writes an address back that has gone to another cluster. -/
theorem addressesUnique_iff (events : List ControllerEvent) :
    (∀ p q, events = p ++ q → (reach p).shared.registry.AddressesUnique) ↔
      Along (Pool.step controller) (Pool.AtAdvance KeepsAddress) ⟨{},[]⟩ events := by
  have hstart : (⟨{},[]⟩ : Controller).shared.registry.AddressesUnique := by
    intro i j c d hc
    cases hc
  refine (always_iff (P := fun s : Controller => s.shared.registry.AddressesUnique) hstart
    events).trans ?_
  refine along_congr (I := fun s : Controller => s.shared.registry.AddressesUnique)
    (fun s e hnext _ => hnext) (fun s e h => ?_) hstart
  cases e with
  | outside e => exact iff_of_true (addressesUnique_outside e h) trivial
  | start request => exact iff_of_true h trivial
  | advance i pushError =>
    refine Pool.advance_iff_atAdvance
      (R := fun t : Controller => t.shared.registry.AddressesUnique) h fun p hp => ?_
    rw [Pool.step_advance hp]
    exact addressesUnique_next h

end Controller

/-- A heartbeat of `a` has been read; then `a` moves to another address and `b` registers with
the old one. -/
def addressMoved : List ControllerEvent :=
  [.outside (.clock 1),
   .outside (.register { clusterId := "a", controlPlaneUrl := "http://one:8000" }),
   .start (.heartbeat { clusterId := "a" }),.advance 0 none,
   .outside (.register { clusterId := "a", controlPlaneUrl := "http://two:8000" }),
   .outside (.register { clusterId := "b", controlPlaneUrl := "http://one:8000" }),
   .advance 0 none,.advance 0 none]

/-- The heartbeat writes the old address of `a` back. -/
theorem not_addressesUnique : ¬ ∀ events p q : List ControllerEvent, events = p ++ q →
    (Controller.reach p).shared.registry.AddressesUnique := by
  intro h
  let reg : FederationRegistry := (Controller.reach addressMoved).shared.registry
  have ha : (reg.getCluster "a").map (fun c => c.controlPlaneUrl) = some "http://one:8000" := by
    decide +kernel
  have hb : (reg.getCluster "b").map (fun c => c.controlPlaneUrl) = some "http://one:8000" := by
    decide +kernel
  obtain ⟨a,hgeta,hurla⟩ := Option.map_eq_some_iff.mp ha
  obtain ⟨b,hgetb,hurlb⟩ := Option.map_eq_some_iff.mp hb
  have hsame := h addressMoved addressMoved [] (List.append_nil _).symm "a" "b" a b hgeta hgetb
    (by rw [hurla, hurlb])
  revert hsame
  decide

end Arsonist.Federation
