import Mathlib.Tactic

/-! Lists of values with names, as JSON objects and the attributes of a record have them, and what
is found in them under a name. -/
namespace Arsonist.Library
variable {κ α β γ : Type*}

section Lookup
variable [BEq κ] [LawfulBEq κ]

theorem lookup_eq_none_iff {l : List (κ × α)} {k : κ} :
    l.lookup k = none ↔ k ∉ l.map Prod.fst := by
  rw [List.lookup_eq_none_iff, List.mem_map]
  constructor
  · rintro h ⟨m,hm,rfl⟩
    exact absurd (h m hm) (by simp)
  · intro h m hm
    exact bne_iff_ne.mpr fun he => h ⟨m,hm,he.symm⟩

/-- Where a name is found, for the first time. -/
theorem split_of_lookup [DecidableEq κ] {l : List (κ × α)} {k : κ} {v : α}
    (h : l.lookup k = some v) :
    ∃ before after, l = before ++ (k,v) :: after ∧ k ∉ before.map Prod.fst ∧
      (l.dropWhile fun m => m.1 ≠ k).tail = after := by
  induction l with
  | nil => cases h
  | cons m l ih =>
    obtain ⟨k',x⟩ := m
    rw [List.lookup_cons] at h
    by_cases hk : k = k'
    · subst hk
      rw [beq_self_eq_true] at h
      obtain rfl := Option.some.inj h
      exact ⟨[],l,rfl,by simp,by simp⟩
    · rw [beq_eq_false_iff_ne.mpr hk] at h
      obtain ⟨before,after,rfl,hbefore,hafter⟩ := ih h
      refine ⟨(k',x) :: before,after,rfl,?_,?_⟩
      · rw [List.map_cons, List.mem_cons, not_or]
        exact ⟨hk,hbefore⟩
      · rw [List.dropWhile_cons_of_pos (by simpa using Ne.symm hk)]
        exact hafter

/-- Putting another value under a name that is there. -/
theorem lookup_set [DecidableEq κ] (l : List (κ × α)) (k : κ) (v : α) (k' : κ) :
    (l.map fun m => if m.1 = k then (k,v) else m).lookup k' =
      if k' = k then (l.lookup k').map fun _ => v else l.lookup k' := by
  induction l with
  | nil => simp
  | cons m l ih =>
    obtain ⟨i,x⟩ := m
    rw [List.map_cons, List.lookup_cons]
    by_cases hi : i = k
    · subst hi
      rw [if_pos rfl, List.lookup_cons]
      by_cases hk : k' = i
      · subst hk
        simp
      · rw [beq_eq_false_iff_ne.mpr hk, ih, if_neg hk]
    · rw [if_neg hi, List.lookup_cons]
      cases hki : k' == i with
      | true =>
        have hk : k' ≠ k := fun h => hi ((beq_iff_eq.mp hki).symm.trans h)
        simp only [if_neg hk]
      | false => exact ih

/-- A name that is kept has the value that it had. -/
theorem lookup_filter_fst (keep : κ → Bool) (l : List (κ × α)) {k : κ} (hk : keep k = true) :
    (l.filter fun m => keep m.1).lookup k = l.lookup k := by
  induction l with
  | nil => rfl
  | cons m l ih =>
    obtain ⟨i,x⟩ := m
    rw [List.filter_cons]
    by_cases hi : keep i = true
    · rw [if_pos hi, List.lookup_cons, List.lookup_cons, ih]
    · have hne : (k == i) = false := by
        rw [beq_eq_false_iff_ne]
        rintro rfl
        exact hi hk
      rw [if_neg hi, List.lookup_cons, hne, ih]

/-- Lists with the same names are told apart by their values. -/
theorem eq_of_lookup {l l' : List (κ × α)} (hn : (l.map Prod.fst).Nodup)
    (hnames : l'.map Prod.fst = l.map Prod.fst)
    (h : ∀ k ∈ l.map Prod.fst, l'.lookup k = l.lookup k) : l' = l := by
  induction l generalizing l' with
  | nil => exact List.map_eq_nil_iff.mp hnames
  | cons m l ih =>
    obtain ⟨k,v⟩ := m
    obtain ⟨m',rest,rfl,hkey,hrest⟩ := List.map_eq_cons_iff.mp hnames
    obtain ⟨k',v'⟩ := m'
    obtain rfl : k' = k := hkey
    rw [List.map_cons, List.nodup_cons] at hn
    have hhead := h k' List.mem_cons_self
    rw [List.lookup_cons_self, List.lookup_cons_self] at hhead
    obtain rfl := Option.some.inj hhead
    congr 1
    refine ih hn.2 hrest fun i hi => ?_
    have hne : (i == k') = false := beq_eq_false_iff_ne.mpr fun he => hn.1 (he ▸ hi)
    have htail := h i (List.mem_cons_of_mem _ hi)
    rwa [List.lookup_cons, List.lookup_cons, hne] at htail

/-- Values that are read one after the other, each under its name. -/
theorem lookup_mapM_named {name : β → κ} {g : β → Option α} {bs : List β} {l : List (κ × α)}
    (hn : (bs.map name).Nodup) (h : (bs.mapM fun b => (g b).map fun v => (name b,v)) = some l) :
    ∀ b ∈ bs, l.lookup (name b) = g b ∧ (g b).isSome = true := by
  induction bs generalizing l with
  | nil => nofun
  | cons b bs ih =>
    obtain ⟨hb,hbs⟩ := List.nodup_cons.mp hn
    rw [List.mapM_cons] at h
    obtain ⟨m,hm,h⟩ := Option.bind_eq_some_iff.mp h
    obtain ⟨rest,hrest,h⟩ := Option.bind_eq_some_iff.mp h
    obtain rfl := Option.some.inj h
    obtain ⟨v,hv,rfl⟩ := Option.map_eq_some_iff.mp hm
    rintro b' hb'
    obtain rfl | hmem := List.mem_cons.mp hb'
    · exact ⟨by rw [List.lookup_cons_self, hv],by rw [hv]; rfl⟩
    · have hne : (name b' == name b) = false := by
        rw [beq_eq_false_iff_ne]
        exact fun he => hb (he ▸ List.mem_map_of_mem hmem)
      rw [List.lookup_cons, hne]
      exact ih hbs hrest b' hmem

end Lookup

theorem map_fst_set [DecidableEq κ] (l : List (κ × α)) (k : κ) (v : α) :
    (l.map fun m => if m.1 = k then (k,v) else m).map Prod.fst = l.map Prod.fst := by
  rw [List.map_map]
  refine List.map_congr_left fun m _ => ?_
  change (if m.1 = k then (k,v) else m).1 = m.1
  by_cases hm : m.1 = k
  · rw [if_pos hm, hm]
  · rw [if_neg hm]

theorem map_fst_mapM_named {name : β → κ} {g : β → Option α} {bs : List β} {l : List (κ × α)}
    (h : (bs.mapM fun b => (g b).map fun v => (name b,v)) = some l) :
    l.map Prod.fst = bs.map name := by
  induction bs generalizing l with
  | nil =>
    obtain rfl := Option.some.inj h
    rfl
  | cons b bs ih =>
    rw [List.mapM_cons] at h
    obtain ⟨m,hm,h⟩ := Option.bind_eq_some_iff.mp h
    obtain ⟨rest,hrest,h⟩ := Option.bind_eq_some_iff.mp h
    obtain rfl := Option.some.inj h
    obtain ⟨v,-,rfl⟩ := Option.map_eq_some_iff.mp hm
    rw [List.map_cons, List.map_cons, ih hrest]

theorem mapM_congr_of_mem {g g' : β → Option γ} {bs : List β} (h : ∀ b ∈ bs, g b = g' b) :
    bs.mapM g = bs.mapM g' := by
  induction bs with
  | nil => rfl
  | cons b bs ih =>
    rw [List.mapM_cons, List.mapM_cons, h b List.mem_cons_self,
      ih fun b' hb' => h b' (List.mem_cons_of_mem _ hb')]

theorem mapM_eq_some_of_map {g : β → Option γ} {bs : List β} {cs : List γ}
    (h : bs.map g = cs.map some) : bs.mapM g = some cs := by
  induction bs generalizing cs with
  | nil =>
    obtain rfl : cs = [] := by simpa using h.symm
    rfl
  | cons b bs ih =>
    cases cs with
    | nil => cases h
    | cons c cs =>
      obtain ⟨hb,hbs⟩ := List.cons.inj h
      rw [List.mapM_cons, hb, ih hbs]
      rfl

/-- What is read, element by element. -/
theorem forall₂_of_mapM {g : β → Option γ} {bs : List β} {cs : List γ}
    (h : bs.mapM g = some cs) : List.Forall₂ (fun b c => g b = some c) bs cs := by
  induction bs generalizing cs with
  | nil =>
    obtain rfl := Option.some.inj h
    exact List.Forall₂.nil
  | cons b bs ih =>
    rw [List.mapM_cons] at h
    obtain ⟨c,hc,h⟩ := Option.bind_eq_some_iff.mp h
    obtain ⟨rest,hrest,h⟩ := Option.bind_eq_some_iff.mp h
    obtain rfl := Option.some.inj h
    exact List.Forall₂.cons hc (ih hrest)

theorem exists_of_forall₂ {R : α → β → Prop} {as : List α} {bs : List β}
    (h : List.Forall₂ R as bs) :
    (∀ a ∈ as, ∃ b ∈ bs, R a b) ∧ ∀ b ∈ bs, ∃ a ∈ as, R a b := by
  induction h with
  | nil => exact ⟨nofun,nofun⟩
  | cons hab _ ih =>
    refine ⟨List.forall_mem_cons.mpr ⟨⟨_,List.mem_cons_self,hab⟩,?_⟩,
      List.forall_mem_cons.mpr ⟨⟨_,List.mem_cons_self,hab⟩,?_⟩⟩
    · intro a ha
      obtain ⟨b,hb,hR⟩ := ih.1 a ha
      exact ⟨b,List.mem_cons_of_mem _ hb,hR⟩
    · intro b hb
      obtain ⟨a,ha,hR⟩ := ih.2 b hb
      exact ⟨a,List.mem_cons_of_mem _ ha,hR⟩

/-- Related elements that agree on something. -/
theorem map_eq_of_forall₂ {R : α → β → Prop} {f : α → γ} {g : β → γ} {as : List α} {bs : List β}
    (h : List.Forall₂ R as bs) (hfg : ∀ a b, R a b → f a = g b) : as.map f = bs.map g := by
  induction h with
  | nil => rfl
  | cons hab _ ih => rw [List.map_cons, List.map_cons, hfg _ _ hab, ih]

/-- Nothing is missing if nothing is missing for any of them. -/
theorem exists_mapM {g : β → Option γ} {bs : List β} (h : ∀ b ∈ bs, (g b).isSome = true) :
    ∃ cs, bs.mapM g = some cs := by
  induction bs with
  | nil => exact ⟨[],rfl⟩
  | cons b bs ih =>
    obtain ⟨c,hc⟩ := Option.isSome_iff_exists.mp (h b List.mem_cons_self)
    obtain ⟨cs,hcs⟩ := ih fun b' hb' => h b' (List.mem_cons_of_mem _ hb')
    refine ⟨c :: cs,?_⟩
    rw [List.mapM_cons, hc, hcs]
    rfl

end Arsonist.Library
