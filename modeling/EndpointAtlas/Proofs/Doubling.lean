import EndpointAtlas.Proofs.Statistics
import EndpointAtlas.Proofs.TraversalOrder

/-!
# Source files given twice

A file that comes again enters its interfaces and controllers under the names that they had. So the last
one of each name is what it was, whatever collides within the files, and only the counts of what was
entered grow.
-/

namespace EndpointAtlas

theorem findRev?_append_self {α : Type} (p : α → Bool) (xs : List α) :
    (xs ++ xs).findRev? p = xs.findRev? p := by
  rw [List.findRev?_eq_find?_reverse, List.findRev?_eq_find?_reverse, List.reverse_append,
    List.find?_append, Option.or_self]

theorem SortedMap.ofList_append_self {κ α : Type} [LT κ] [LE κ] [Std.IsLinearOrder κ]
    [Std.LawfulOrderLT κ] [DecidableEq κ] [DecidableLT κ] (xs : List (κ × α)) :
    ofList (xs ++ xs) = ofList xs := by
  apply ext_get?
  intro k
  rw [get?_ofList, get?_ofList, latest?_eq_findRev?, latest?_eq_findRev?, findRev?_append_self]

theorem SortedSet.ofList_append_self (xs : List String) : ofList (xs ++ xs) = ofList xs := by
  apply ext_mem
  intro x
  rw [mem_ofList, mem_ofList, List.mem_append, or_self]

theorem Registration.namesOf_append_self (history : List Registration) (simple : String) :
    namesOf (history ++ history) simple = namesOf history simple := by
  rw [namesOf, namesOf, List.filter_append, List.map_append]
  cases hnames : (history.filter (·.type.name == simple)).map (·.qualifiedName) with
  | nil => rfl
  | cons name names => exact congrArg some (SortedSet.ofList_append_self (name :: names))

namespace Catalog

variable {c d : Catalog} {history : List Registration}

/-- Interfaces that are entered a second time are found as before. -/
theorem Records.resolve_append_self (hc : c.Records history) (hd : d.Records (history ++ history))
    (r : TypeReference) : d.resolve r = c.resolve r := by
  rw [hc.resolve, hd.resolve, findRev?_append_self, findRev?_append_self]

theorem Records.ambiguous_append_self (hc : c.Records history)
    (hd : d.Records (history ++ history)) : d.ambiguous = c.ambiguous := by
  have hnames : d.qualifiedNames = c.qualifiedNames := by
    apply SortedMap.ext_get?
    intro simple
    rw [hc.names, hd.names, Registration.namesOf_append_self]
  rw [ambiguous, ambiguous, hnames]

end Catalog

theorem acceptedTypes_append (us vs : List SourceUnit) :
    acceptedTypes (us ++ vs) = acceptedTypes us ++ acceptedTypes vs :=
  List.flatMap_append

namespace Analysis

theorem records_append_self (us : List SourceUnit) :
    (Catalog.ofUnits (us ++ us)).Records
      (us.flatMap (·.registrations) ++ us.flatMap (·.registrations)) := by
  have hrecords := Catalog.records_ofUnits (us ++ us)
  rwa [List.flatMap_append] at hrecords

theorem inventory_append_self (us : List SourceUnit) :
    (ofUnits (us ++ us)).inventory = (ofUnits us).inventory := by
  have hentry (t : DeclaredType) :
      t.entry (Catalog.ofUnits (us ++ us)) = t.entry (Catalog.ofUnits us) := by
    have hoffers : t.offers (Catalog.ofUnits (us ++ us)) = t.offers (Catalog.ofUnits us) := by
      apply DeclaredType.offers_congr
      intro r _
      exact (Catalog.records_ofUnits us).resolve_append_self (records_append_self us) r
    rw [DeclaredType.entry, DeclaredType.entry, hoffers]
  rw [inventory_eq_ofList, inventory_eq_ofList, acceptedTypes_append, List.map_append]
  simp only [hentry]
  exact congrArg Inventory.mk (SortedMap.ofList_append_self _)

/-- Every controller of the second copy takes the place of one that is in the roster. -/
theorem collisions_append_self (us : List SourceUnit) :
    (ofUnits (us ++ us)).statistics.controllerCollisions =
      (ofUnits us).statistics.controllerCollisions + (acceptedTypes us).length := by
  have honce := size_inventory_add_replaced us
  have htwice := size_inventory_add_replaced (us ++ us)
  rw [inventory_append_self, acceptedTypes_append, List.length_append] at htwice
  omega

/-- Source files that are analysed twice over have the inventory that they have once. The files and the
interfaces count twice, and every controller of the second copy counts as a collision. -/
theorem ofUnits_append_self (us : List SourceUnit) :
    let once := ofUnits us
    let twice := ofUnits (us ++ us)
    twice.inventory = once.inventory ∧
      twice.statistics =
        { once.statistics with
          filesParsed := 2 * once.statistics.filesParsed
          interfaces := 2 * once.statistics.interfaces
          controllerCollisions := once.statistics.controllerCollisions +
            (us.flatMap (·.types)).countP (·.isController) } := by
  intro once twice
  have hc := Catalog.records_ofUnits us
  have hd := records_append_self us
  have hinventory : twice.inventory = once.inventory := inventory_append_self us
  have hparsed : twice.statistics.filesParsed = 2 * once.statistics.filesParsed := by
    change (us ++ us).length = 2 * us.length
    rw [List.length_append, ← Nat.two_mul]
  have hinterfaces : twice.statistics.interfaces = 2 * once.statistics.interfaces := by
    change (Catalog.ofUnits (us ++ us)).count = 2 * (Catalog.ofUnits us).count
    rw [hd.count, hc.count, List.length_append, ← Nat.two_mul]
  have hambiguous : twice.statistics.ambiguousInterfaces = once.statistics.ambiguousInterfaces :=
    congrArg SortedMap.size (hc.ambiguous_append_self hd)
  have hcollisions : twice.statistics.controllerCollisions =
      once.statistics.controllerCollisions + (us.flatMap (·.types)).countP (·.isController) := by
    rw [← length_acceptedTypes]
    exact collisions_append_self us
  have hcontrollers : twice.statistics.controllers = once.statistics.controllers :=
    congrArg Inventory.size hinventory
  have hendpoints : twice.statistics.endpoints = once.statistics.endpoints :=
    congrArg Inventory.endpointCount hinventory
  refine ⟨hinventory, ?_⟩
  rw [← hparsed, ← hinterfaces, ← hcollisions]
  dsimp only
  rw [← hambiguous, ← hcontrollers, ← hendpoints]
  rfl

/-- The first of two controllers with one name loses its place once in one copy and twice in two, and the
last one loses it to the first of the second copy. -/
example :
    let first : DeclaredType := ⟨"C", .classType, [⟨"Controller"⟩], [], [⟨none, "Api"⟩]⟩
    let last : DeclaredType := ⟨"C", .classType, [⟨"Path"⟩], [], []⟩
    let us : List SourceUnit := [⟨none, [first, ⟨"Api", .interfaceType, [], [], []⟩, last]⟩]
    (ofUnits us).statistics.controllerCollisions = 1 ∧
      (ofUnits (us ++ us)).statistics.controllerCollisions = 3 := by
  decide

end Analysis

end EndpointAtlas
