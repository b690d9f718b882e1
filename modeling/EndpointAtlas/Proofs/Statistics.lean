import EndpointAtlas.Project
import EndpointAtlas.Proofs.Analysis
import Mathlib.Algebra.GroupWithZero.Nat

/-!
# What the statistics count

Each figure is kept in a place of its own: the roster counts the controllers that lost their place, the
catalog counts the interfaces it entered, and the rest is read off the finished maps. Since the maps
are those of the controllers and interfaces in order, every figure is a count over the source files.
-/

namespace EndpointAtlas

namespace DeclaredType

/-- The names of the endpoints of a controller: of its own, and of those of the interfaces that its
references mean. -/
def endpointNames (t : DeclaredType) (catalog : Catalog) : List String :=
  (t.endpointMethods ++
    (t.implemented.filterMap catalog.resolve).flatMap (·.endpointMethods)).map (·.name)

theorem map_name_offers (t : DeclaredType) (catalog : Catalog) :
    (t.offers catalog).map (·.method.name) = t.endpointNames catalog := by
  rw [offers, endpointNames, List.map_append, List.map_append, List.map_map, List.map_flatMap,
    List.map_flatMap]
  simp only [List.map_map]
  rfl

theorem size_entry (t : DeclaredType) (catalog : Catalog) :
    (t.entry catalog).size = (t.endpointNames catalog).dedup.length := by
  rw [entry, SortedMap.size_ofList, List.map_map, ← map_name_offers]
  rfl

end DeclaredType

/-- The controllers that keep their place: the last one of each name. -/
def survivors (us : List SourceUnit) : List DeclaredType :=
  ((acceptedTypes us).map (·.1)).dedup.filterMap fun name => latest? name (acceptedTypes us)

namespace Registration

theorem length_dedup_namesOf (history : List Registration) (simple : String) :
    (namesOf history simple).any (1 < ·.size) =
      decide (1 < ((history.filter (·.type.name == simple)).map (·.qualifiedName)).dedup.length) := by
  rw [namesOf]
  cases (history.filter (·.type.name == simple)).map (·.qualifiedName) with
  | nil => rfl
  | cons name names => rw [Option.any_some, SortedSet.size_ofList]

theorem exists_namesOf_iff {history : List Registration} {simple : String} :
    (∃ names, namesOf history simple = some names) ↔ simple ∈ history.map (·.type.name) := by
  rw [namesOf]
  constructor
  · rintro ⟨names, hnames⟩
    by_contra hnone
    have hfilter : history.filter (·.type.name == simple) = [] := by
      rw [List.filter_eq_nil_iff]
      intro r hr hname
      exact hnone (List.mem_map.2 ⟨r, hr, eq_of_beq hname⟩)
    rw [hfilter] at hnames
    cases hnames
  · intro hmem
    obtain ⟨r, hr, hname⟩ := List.mem_map.1 hmem
    have hfound : r.qualifiedName ∈
        (history.filter (·.type.name == simple)).map (·.qualifiedName) :=
      List.mem_map_of_mem (List.mem_filter.2 ⟨hr, beq_iff_eq.2 hname⟩)
    cases hnames : (history.filter (·.type.name == simple)).map (·.qualifiedName) with
    | nil =>
        rw [hnames] at hfound
        cases hfound
    | cons name names => exact ⟨_, rfl⟩

end Registration

namespace Catalog

/-- A simple name is ambiguous if interfaces with two qualified names have it. -/
theorem Records.size_ambiguous {c : Catalog} {history : List Registration}
    (hrecords : c.Records history) :
    c.ambiguous.size = (history.map (·.type.name)).dedup.countP fun simple =>
      1 < ((history.filter (·.type.name == simple)).map (·.qualifiedName)).dedup.length := by
  have hkeys : c.qualifiedNames.keys.Perm (history.map (·.type.name)).dedup := by
    refine (List.perm_ext_iff_of_nodup (SortedMap.nodup_keys _) (List.nodup_dedup _)).2 ?_
    intro simple
    rw [SortedMap.mem_keys_iff, hrecords.names, Registration.exists_namesOf_iff, List.mem_dedup]
  rw [ambiguous, SortedMap.size_filter, hkeys.countP_eq]
  apply List.countP_congr
  intro simple _
  rw [hrecords.names]
  exact Bool.eq_iff_iff.1 (Registration.length_dedup_namesOf history simple)

end Catalog

namespace Analysis

theorem length_acceptedTypes (us : List SourceUnit) :
    (acceptedTypes us).length = (us.flatMap (·.types)).countP (·.isController) := by
  rw [acceptedTypes, List.length_flatMap, List.countP_flatMap]
  congr 1
  apply List.map_congr_left
  intro u _
  rw [List.length_map, Function.comp_apply, List.countP_eq_length_filter]

theorem length_registrations (us : List SourceUnit) :
    (us.flatMap (·.registrations)).length = (us.flatMap (·.types)).countP (·.isInterface) := by
  rw [List.length_flatMap, List.countP_flatMap]
  congr 1
  apply List.map_congr_left
  intro u _
  rw [SourceUnit.registrations, List.length_map, Function.comp_apply,
    List.countP_eq_length_filter]

theorem size_inventory (us : List SourceUnit) :
    (ofUnits us).inventory.size = ((acceptedTypes us).map (·.1)).dedup.length := by
  rw [inventory_eq_ofList, Inventory.size, Inventory.ofList, SortedMap.size_ofList, List.map_map]
  rfl

/-- The endpoint maps of the inventory are those of the controllers that keep their place. -/
theorem values_inventory (us : List SourceUnit) :
    (ofUnits us).inventory.controllers.values.Perm
      ((survivors us).map (·.entry (Catalog.ofUnits us))) := by
  have hget (name : String) : (ofUnits us).inventory.controllers.get? name =
      (latest? name (acceptedTypes us)).map (·.entry (Catalog.ofUnits us)) := by
    rw [inventory_eq_ofList, Inventory.ofList, SortedMap.get?_ofList,
      latest?_map (DeclaredType.entry · (Catalog.ofUnits us))]
  have hkeys : (ofUnits us).inventory.controllers.keys.Perm
      ((acceptedTypes us).map (·.1)).dedup := by
    rw [inventory_eq_ofList, Inventory.ofList]
    refine (SortedMap.keys_ofList_perm _).trans ?_
    rw [List.map_map]
    exact List.Perm.refl _
  rw [← SortedMap.filterMap_get?_keys, survivors, List.map_filterMap]
  simp only [← hget]
  exact hkeys.filterMap _

theorem endpointCount_inventory (us : List SourceUnit) :
    (ofUnits us).inventory.endpointCount =
      ((survivors us).map fun t => (t.endpointNames (Catalog.ofUnits us)).dedup.length).sum := by
  have hsum := ((values_inventory us).map (·.size)).sum_nat
  rw [List.map_map] at hsum
  rw [Inventory.endpointCount]
  refine hsum.trans ?_
  congr 1
  apply List.map_congr_left
  intro t _
  exact t.size_entry _

/-- The collected controllers are those that the roster keeps and those that lost their place. -/
theorem size_inventory_add_replaced (us : List SourceUnit) :
    (ofUnits us).inventory.size + (ofUnits us).statistics.controllerCollisions =
      (acceptedTypes us).length := by
  have hroster := Roster.ofUnits_fst (Catalog.ofUnits us) us
  have hsize : (ofUnits us).inventory.size = (Roster.ofUnits (Catalog.ofUnits us) us).1.size := by
    change (SortedMap.mapValues _ _).size = _
    rw [SortedMap.size, SortedMap.mapValues, List.length_map]
    rfl
  have hreplaced : (ofUnits us).statistics.controllerCollisions =
      (Roster.ofUnits (Catalog.ofUnits us) us).1.replaced := rfl
  rw [hsize, hreplaced, hroster, Roster.size_add_replaced, List.length_map]

end Analysis

namespace Project

theorem length_units_add_failures (files : List (String × Except SourceFailure SourceUnit)) :
    (units files).length + (failures files).length = files.length := by
  induction files with
  | nil => rfl
  | cons f files ih =>
      obtain ⟨path, result⟩ := f
      cases result with
      | error failure =>
          have hunits : units ((path, .error failure) :: files) = units files := rfl
          have hfailures : failures ((path, .error failure) :: files) =
              .fileFailed path failure :: failures files := rfl
          rw [hunits, hfailures, List.length_cons, List.length_cons]
          omega
      | ok u =>
          have hunits : units ((path, .ok u) :: files) = u :: units files := rfl
          have hfailures : failures ((path, .ok u) :: files) = failures files := rfl
          rw [hunits, hfailures, List.length_cons, List.length_cons]
          omega

/-- The files that count as failed are those that give no declarations. -/
theorem filesFailed_analyze (t : FileTree) (current : Place) (root : String)
    (extensions : List String) (lenient : Bool) :
    (analyze t current root extensions lenient).1.statistics.filesFailed =
      (sources t current root extensions lenient).countP (·.2.toOption.isNone) := by
  have hfailed : (analyze t current root extensions lenient).1.statistics.filesFailed =
      (sources t current root extensions lenient).length -
        (units (sources t current root extensions lenient)).length := rfl
  have htotal := length_units_add_failures (sources t current root extensions lenient)
  have hfailures : (failures (sources t current root extensions lenient)).length =
      (sources t current root extensions lenient).countP (·.2.toOption.isNone) := by
    rw [failures, List.length_filterMap_eq_countP]
    apply List.countP_congr
    rintro ⟨path, result⟩ _
    cases result <;> simp [Except.toOption]
  omega

end Project

/-- Every controller of the source files is in the inventory or has lost its place, every endpoint is
counted once for the controller that keeps its name, and every file found is parsed or has failed. -/
theorem statistics_conserved :
    (∀ us : List SourceUnit,
      let catalog := Catalog.ofUnits us
      let inventory := (Analysis.ofUnits us).inventory
      let statistics := (Analysis.ofUnits us).statistics
      let interfaces := us.flatMap (·.registrations)
      statistics.controllers + statistics.controllerCollisions =
        (us.flatMap (·.types)).countP (·.isController) ∧
      statistics.controllers = ((acceptedTypes us).map (·.1)).dedup.length ∧
      statistics.controllers = inventory.size ∧
      statistics.endpoints = inventory.endpointCount ∧
      statistics.endpoints =
        ((survivors us).map fun t => (t.endpointNames catalog).dedup.length).sum ∧
      statistics.interfaces = (us.flatMap (·.types)).countP (·.isInterface) ∧
      statistics.ambiguousInterfaces = (interfaces.map (·.type.name)).dedup.countP (fun simple =>
        1 < ((interfaces.filter (·.type.name == simple)).map (·.qualifiedName)).dedup.length) ∧
      statistics.filesParsed = us.length) ∧
    ∀ (t : FileTree) (current : Place) (root : String) (extensions : List String) (lenient : Bool),
      let files := Project.sources t current root extensions lenient
      let statistics := (Project.analyze t current root extensions lenient).1.statistics
      statistics.filesDiscovered = (t.scan current root extensions).length ∧
      statistics.filesParsed = (Project.units files).length ∧
      statistics.filesFailed = (Project.failures files).length ∧
      statistics.filesParsed ≤ statistics.filesDiscovered ∧
      statistics.filesDiscovered = statistics.filesParsed + statistics.filesFailed := by
  constructor
  · intro us catalog inventory statistics interfaces
    have hrecords : catalog.Records interfaces := Catalog.records_ofUnits us
    refine ⟨?_, Analysis.size_inventory us, rfl, rfl, Analysis.endpointCount_inventory us, ?_,
      hrecords.size_ambiguous, rfl⟩
    · rw [← Analysis.length_acceptedTypes]
      exact Analysis.size_inventory_add_replaced us
    · rw [← Analysis.length_registrations]
      exact hrecords.count
  · intro t current root extensions lenient files statistics
    have htotal := Project.length_units_add_failures files
    have hdiscovered : statistics.filesDiscovered = files.length := rfl
    have hparsed : statistics.filesParsed = (Project.units files).length := rfl
    have hfailed : statistics.filesFailed = files.length - (Project.units files).length := rfl
    refine ⟨?_, hparsed, ?_, ?_, ?_⟩
    · rw [hdiscovered]
      exact List.length_map _
    all_goals omega

end EndpointAtlas
