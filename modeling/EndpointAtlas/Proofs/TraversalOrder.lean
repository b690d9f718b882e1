import EndpointAtlas.Proofs.Analysis

/-!
# The order in which files are read

Entries that overwrite one another make the order of the files matter. Where no two controllers have one
name, and no two interfaces go by a name that some controller looks for, nothing is overwritten that is
read again, and the analysis is the same in every order.
-/

namespace EndpointAtlas

/-- The same source files in another order, each with its types in another order. -/
def Reordered (us vs : List SourceUnit) : Prop :=
  ∃ ws, us.Perm ws ∧ List.Forall₂ (fun w v => w.package = v.package ∧ w.types.Perm v.types) ws vs

namespace Reordered

/-- What is gathered from the types of each file, each taken with what comes before its name, is
gathered from the same types in another order. -/
theorem flatMap_perm {α : Type} {us vs : List SourceUnit} (hreordered : Reordered us vs)
    (p : DeclaredType → Bool) (f : String → DeclaredType → α) :
    (us.flatMap fun u => (u.types.filter p).map (f u.lead)).Perm
      (vs.flatMap fun v => (v.types.filter p).map (f v.lead)) := by
  obtain ⟨ws, hfiles, htypes⟩ := hreordered
  refine (hfiles.flatMap_right _).trans ?_
  clear hfiles
  induction htypes with
  | nil => exact List.Perm.refl _
  | cons hhead _ ih =>
      obtain ⟨hpackage, hperm⟩ := hhead
      rw [List.flatMap_cons, List.flatMap_cons, SourceUnit.lead, SourceUnit.lead, hpackage]
      exact ((hperm.filter p).map _).append ih

theorem acceptedTypes_perm {us vs : List SourceUnit} (hreordered : Reordered us vs) :
    (acceptedTypes us).Perm (acceptedTypes vs) :=
  hreordered.flatMap_perm _ fun lead t => (lead ++ t.name, t)

theorem registrations_perm {us vs : List SourceUnit} (hreordered : Reordered us vs) :
    (us.flatMap (·.registrations)).Perm (vs.flatMap (·.registrations)) :=
  hreordered.flatMap_perm _ Registration.mk

theorem length_eq {us vs : List SourceUnit} (hreordered : Reordered us vs) :
    us.length = vs.length := by
  obtain ⟨ws, hfiles, htypes⟩ := hreordered
  rw [hfiles.length_eq, htypes.length_eq]

end Reordered

theorem Registration.namesOf_perm {xs ys : List Registration} (hperm : xs.Perm ys)
    (simple : String) : namesOf xs simple = namesOf ys simple := by
  have hnames := (hperm.filter (·.type.name == simple)).map (·.qualifiedName)
  rw [namesOf, namesOf]
  generalize (xs.filter (·.type.name == simple)).map (·.qualifiedName) = names at hnames ⊢
  generalize (ys.filter (·.type.name == simple)).map (·.qualifiedName) = names' at hnames ⊢
  cases names with
  | nil => rw [List.nil_perm.1 hnames]
  | cons x names =>
      cases names' with
      | nil => exact absurd hnames.symm (List.not_perm_nil_cons x names)
      | cons y names' =>
          simp only
          rw [SortedSet.ofList_perm hnames]

namespace Catalog

variable {c d : Catalog} {xs ys : List Registration}

/-- The names known of interfaces do not depend on the order in which these were entered. -/
theorem Records.qualifiedNames_perm (hc : c.Records xs) (hd : d.Records ys) (hperm : xs.Perm ys) :
    c.qualifiedNames = d.qualifiedNames := by
  apply SortedMap.ext_get?
  intro simple
  rw [hc.names, hd.names, Registration.namesOf_perm hperm]

/-- A reference has one meaning in every order if no two interfaces go by its qualified key or by its
simple name. -/
theorem Records.resolve_perm (hc : c.Records xs) (hd : d.Records ys) (hperm : xs.Perm ys)
    {r : TypeReference}
    (hsingle : ∀ name ∈ [r.qualifiedKey, r.name],
      xs.Pairwise fun a b => ¬ (a.goesBy name ∧ b.goesBy name)) : c.resolve r = d.resolve r := by
  have hkey := findRev?_perm hperm (hsingle r.qualifiedKey (by simp))
  have hname := findRev?_perm hperm (hsingle r.name (by simp))
  rw [hc.resolve, hd.resolve, hkey, hname]

end Catalog

theorem DeclaredType.offers_congr {t : DeclaredType} {c d : Catalog}
    (h : ∀ r ∈ t.implemented, c.resolve r = d.resolve r) : t.offers c = t.offers d := by
  rw [offers, offers, List.filterMap_congr h]

/-- The names under which the controllers of source files look for interfaces. -/
def soughtNames (us : List SourceUnit) : List String :=
  (acceptedTypes us).flatMap fun e => e.2.implemented.flatMap fun r => [r.qualifiedKey, r.name]

namespace Analysis

/-- The analysis does not depend on the order of files and types if no two controllers have the same
qualified name and no two interfaces go by the same name that a controller looks for. -/
theorem ofUnits_reordered {us vs : List SourceUnit} (hreordered : Reordered us vs)
    (hcontrollers : ((acceptedTypes us).map (·.1)).Nodup)
    (hinterfaces : (us.flatMap (·.registrations)).Pairwise fun a b =>
      ∀ name ∈ soughtNames us, ¬ (a.goesBy name ∧ b.goesBy name)) :
    ofUnits us = ofUnits vs := by
  have hc := Catalog.records_ofUnits us
  have hd := Catalog.records_ofUnits vs
  have hinterfacesPerm := hreordered.registrations_perm
  have hacceptedPerm := hreordered.acceptedTypes_perm
  have hresolve : ∀ e ∈ acceptedTypes us, ∀ r ∈ e.2.implemented,
      (Catalog.ofUnits us).resolve r = (Catalog.ofUnits vs).resolve r := by
    intro e he r hr
    refine hc.resolve_perm hd hinterfacesPerm ?_
    intro name hname
    have hsought : name ∈ soughtNames us :=
      List.mem_flatMap.2 ⟨e, he, List.mem_flatMap.2 ⟨r, hr, hname⟩⟩
    exact hinterfaces.imp fun h => h name hsought
  have hroster : (Roster.ofUnits (Catalog.ofUnits us) us).1 =
      (Roster.ofUnits (Catalog.ofUnits vs) vs).1 := by
    rw [Roster.ofUnits_fst, Roster.ofUnits_fst]
    have hsame : (acceptedTypes us).map (fun e => e.2.asController (Catalog.ofUnits us) e.1) =
        (acceptedTypes us).map fun e => e.2.asController (Catalog.ofUnits vs) e.1 := by
      apply List.map_congr_left
      intro e he
      rw [DeclaredType.asController, DeclaredType.asController,
        DeclaredType.offers_congr (hresolve e he)]
    rw [hsame]
    refine Roster.collect_perm (hacceptedPerm.map _) ?_
    rw [List.map_map]
    exact hcontrollers
  have hcount : (Catalog.ofUnits us).count = (Catalog.ofUnits vs).count := by
    rw [hc.count, hd.count, hinterfacesPerm.length_eq]
  have hambiguous : (Catalog.ofUnits us).ambiguous = (Catalog.ofUnits vs).ambiguous := by
    rw [Catalog.ambiguous, Catalog.ambiguous, hc.qualifiedNames_perm hd hinterfacesPerm]
  have hanalysis (ws : List SourceUnit) : ofUnits ws =
      ⟨(Roster.ofUnits (Catalog.ofUnits ws) ws).1.inventory,
        counts ws.length (Catalog.ofUnits ws) (Roster.ofUnits (Catalog.ofUnits ws) ws).1
          (Roster.ofUnits (Catalog.ofUnits ws) ws).1.inventory⟩ := rfl
  rw [hanalysis us, hanalysis vs, hroster, counts, counts, hreordered.length_eq, hcount, hambiguous]

/-- Two interfaces may share a name, here `Other`, that no controller looks for. -/
theorem ofUnits_reordered_shared_name :
    let api : DeclaredType :=
      ⟨"Api", .interfaceType, [], [⟨"find", "User", [], [⟨"GetMapping"⟩]⟩], []⟩
    let other : DeclaredType := ⟨"Other", .interfaceType, [], [], []⟩
    let web : DeclaredType := ⟨"C", .classType, [⟨"RestController"⟩], [], [⟨some "a", "Api"⟩]⟩
    let us : List SourceUnit := [⟨some "a", [api, other]⟩, ⟨some "b", [web, other]⟩]
    let vs : List SourceUnit := [⟨some "b", [other, web]⟩, ⟨some "a", [other, api]⟩]
    Reordered us vs ∧ ((acceptedTypes us).map (·.1)).Nodup ∧
      ((us.flatMap (·.registrations)).Pairwise fun a b =>
        ∀ name ∈ soughtNames us, ¬ (a.goesBy name ∧ b.goesBy name)) ∧
      ofUnits us = ofUnits vs := by
  intro api other web us vs
  have hreordered : Reordered us vs :=
    ⟨[⟨some "b", [web, other]⟩, ⟨some "a", [api, other]⟩], List.Perm.swap _ _ [],
      .cons ⟨rfl, List.Perm.swap _ _ []⟩ (.cons ⟨rfl, List.Perm.swap _ _ []⟩ .nil)⟩
  exact ⟨hreordered, by decide, by decide, ofUnits_reordered hreordered (by decide) (by decide)⟩

end Analysis

end EndpointAtlas
