import EndpointAtlas.Analysis
import EndpointAtlas.Proofs.Catalog
import EndpointAtlas.Proofs.Roster

/-!
# The inventory of source files

The controllers of all files, one after the other, decide on the inventory: the last one of each name
has the entry, and in the entry the last method of each name has the list of exchanged types.
-/

namespace EndpointAtlas

/-- A method by which a controller has an endpoint: one of its own, or one of an interface that it
implements. -/
inductive Offer where
  | own (m : Method)
  | inherited (interface : DeclaredType) (m : Method)
  deriving DecidableEq, Repr, Inhabited

namespace Offer

def method : Offer → Method
  | own m => m
  | inherited _ m => m

def endpoint : Offer → Endpoint
  | own m => m.declaredEndpoint
  | inherited i m => m.inheritedEndpoint i.name

/-- The types that an endpoint exchanges. What a method takes counts only where the controller itself
declares it. -/
def Exchanges (o : Offer) (type : String) : Prop :=
  match o with
  | own m => (m.returnType ≠ "void" ∧ type = m.returnType) ∨ ∃ p ∈ m.parameters, type = p.type
  | inherited _ m => m.returnType ≠ "void" ∧ type = m.returnType

@[simp]
theorem endpoint_name (o : Offer) : o.endpoint.name = o.method.name := by
  cases o <;> rfl

theorem mem_returned {m : Method} {x : String} :
    x ∈ m.returned ↔ m.returnType ≠ "void" ∧ x = m.returnType := by
  rw [Method.returned, Method.returnsVoid]
  by_cases h : m.returnType = "void" <;> simp [h]

theorem mem_types_endpoint {o : Offer} {x : String} :
    x ∈ o.endpoint.types.toList ↔ o.Exchanges x := by
  cases o with
  | own m =>
      rw [endpoint, Method.declaredEndpoint, SortedSet.mem_ofList, List.mem_append, mem_returned,
        List.mem_map, Exchanges]
      simp only [eq_comm]
  | inherited i m =>
      rw [endpoint, Method.inheritedEndpoint, SortedSet.mem_ofList, mem_returned, Exchanges]

end Offer

namespace DeclaredType

/-- The methods by which a controller has endpoints: its own in their order, then for each of its
references those of the interface that it means. -/
def offers (t : DeclaredType) (catalog : Catalog) : List Offer :=
  t.endpointMethods.map .own ++
    (t.implemented.filterMap catalog.resolve).flatMap fun i => i.endpointMethods.map (.inherited i)

theorem referredEndpoints_fst (catalog : Catalog) (controller : String) (r : TypeReference) :
    (referredEndpoints catalog controller r).1 =
      (catalog.resolve r).toList.flatMap (·.inheritedEndpoints) := by
  rw [referredEndpoints]
  cases catalog.resolve r <;> simp

theorem endpoints_offers (t : DeclaredType) (catalog : Catalog) (controller : String) :
    (t.offers catalog).map (·.endpoint) =
      t.endpointMethods.map (·.declaredEndpoint) ++
        (t.implemented.map (referredEndpoints catalog controller)).flatMap (·.1) := by
  have hinherited (rs : List TypeReference) :
      ((rs.filterMap catalog.resolve).flatMap fun i =>
          i.endpointMethods.map (Offer.inherited i)).map (·.endpoint) =
        (rs.map (referredEndpoints catalog controller)).flatMap (·.1) := by
    induction rs with
    | nil => rfl
    | cons r rs ih =>
        rw [List.map_cons, List.flatMap_cons, ← ih, referredEndpoints_fst]
        cases hresolved : catalog.resolve r with
        | none => simp [hresolved]
        | some i =>
            rw [List.filterMap_cons, hresolved]
            simp only [List.flatMap_cons, List.map_append, List.map_map, Option.toList_some,
              List.flatMap_nil, List.append_nil]
            rfl
  rw [offers, List.map_append, hinherited, List.map_map]
  rfl

theorem mem_names_offers {t : DeclaredType} {catalog : Catalog} {name : String} :
    (∃ o ∈ t.offers catalog, o.method.name = name) ↔
      (∃ m ∈ t.endpointMethods, m.name = name) ∨
        ∃ r ∈ t.implemented, ∃ i, catalog.resolve r = some i ∧
          ∃ m ∈ i.endpointMethods, m.name = name := by
  simp only [offers, List.mem_append, List.mem_map, List.mem_flatMap, List.mem_filterMap]
  constructor
  · rintro ⟨o, ⟨m, hm, rfl⟩ | ⟨i, ⟨r, hr, hresolved⟩, m, hm, rfl⟩, hname⟩
    · exact Or.inl ⟨m, hm, hname⟩
    · exact Or.inr ⟨r, hr, i, hresolved, m, hm, hname⟩
  · rintro (⟨m, hm, hname⟩ | ⟨r, hr, i, hresolved, m, hm, hname⟩)
    · exact ⟨.own m, Or.inl ⟨m, hm, rfl⟩, hname⟩
    · exact ⟨.inherited i m, Or.inr ⟨i, ⟨r, hr, hresolved⟩, m, hm, rfl⟩, hname⟩

def asController (t : DeclaredType) (catalog : Catalog) (name : String) : Controller :=
  ⟨name, (t.offers catalog).map (·.endpoint)⟩

def entry (t : DeclaredType) (catalog : Catalog) : EndpointMap :=
  .ofList ((t.offers catalog).map fun o => (o.method.name, o.endpoint.types.toList))

theorem endpointMap_asController (t : DeclaredType) (catalog : Catalog) (name : String) :
    (t.asController catalog name).endpointMap = t.entry catalog := by
  rw [Controller.endpointMap_eq_ofList, asController, List.map_map, entry]
  congr 1
  apply List.map_congr_left
  intro o _
  rw [Function.comp_apply, Offer.endpoint_name]

theorem mem_keys_entry {t : DeclaredType} {catalog : Catalog} {name : String} :
    name ∈ (t.entry catalog).keys ↔ ∃ o ∈ t.offers catalog, o.method.name = name := by
  rw [entry, SortedMap.mem_keys_ofList]
  simp

theorem get?_entry (t : DeclaredType) (catalog : Catalog) (name : String) :
    (t.entry catalog).get? name =
      ((t.offers catalog).findRev? (·.method.name == name)).map (·.endpoint.types.toList) := by
  rw [entry, SortedMap.get?_ofList, latest?_map_key]

theorem controller?_fst (t : DeclaredType) (lead : String) (catalog : Catalog) :
    (t.controller? lead catalog).map (·.1) =
      if t.isController then some (t.asController catalog (lead ++ t.name)) else none := by
  rw [controller?]
  split
  · rw [asController, endpoints_offers t catalog (lead ++ t.name)]
    rfl
  · rfl

end DeclaredType

/-- The controllers among the types of source files under their qualified names, in order. -/
def acceptedTypes (us : List SourceUnit) : List (String × DeclaredType) :=
  us.flatMap fun u => (u.types.filter (·.isController)).map fun t => (u.lead ++ t.name, t)

theorem mem_keys_acceptedTypes {us : List SourceUnit} {name : String} :
    name ∈ (acceptedTypes us).map (·.1) ↔
      ∃ u ∈ us, ∃ t ∈ u.types, t.isController ∧ name = u.lead ++ t.name := by
  simp only [acceptedTypes, List.mem_map, List.mem_flatMap, List.mem_filter]
  constructor
  · rintro ⟨_, ⟨u, hu, t, ⟨ht, hcontroller⟩, rfl⟩, rfl⟩
    exact ⟨u, hu, t, ht, hcontroller, rfl⟩
  · rintro ⟨u, hu, t, ht, hcontroller, rfl⟩
    exact ⟨_, ⟨u, hu, t, ⟨ht, hcontroller⟩, rfl⟩, rfl⟩

theorem SourceUnit.controllers_fst (u : SourceUnit) (catalog : Catalog) :
    (u.controllers catalog).map (·.1) =
      (u.types.filter (·.isController)).map fun t => t.asController catalog (u.lead ++ t.name) := by
  rw [controllers]
  induction u.types with
  | nil => rfl
  | cons t ts ih =>
      have hfirst := t.controller?_fst u.lead catalog
      rw [List.filterMap_cons, List.filter_cons]
      cases hfound : t.controller? u.lead catalog with
      | none =>
          rw [hfound] at hfirst
          split at hfirst
          · simp at hfirst
          · next hplain =>
            rw [if_neg hplain]
            exact ih
      | some found =>
          rw [hfound] at hfirst
          split at hfirst
          · next hcontroller =>
            rw [if_pos hcontroller]
            rw [List.map_cons, List.map_cons, ih, ← Option.some.inj hfirst]
          · simp at hfirst

namespace Roster

theorem addUnit_fst (catalog : Catalog) (state : Roster × List Event) (u : SourceUnit) :
    (addUnit catalog state u).1 =
      ((u.controllers catalog).map (·.1)).foldl (fun r x => (r.insert x).1) state.1 := by
  rw [addUnit]
  generalize state.2 ++ (u.controllers catalog).flatMap (·.2) = events
  generalize state.1 = r
  induction u.controllers catalog generalizing r events with
  | nil => rfl
  | cons found rest ih => exact ih _ _

/-- The roster of source files collects their controllers, file by file. -/
theorem ofUnits_fst (catalog : Catalog) (us : List SourceUnit) :
    (ofUnits catalog us).1 =
      collect ((acceptedTypes us).map fun e => e.2.asController catalog e.1) := by
  induction us using List.reverseRecOn with
  | nil => rfl
  | append_singleton us u ih =>
      rw [ofUnits] at ih
      rw [ofUnits, List.foldl_append, List.foldl_cons, List.foldl_nil, addUnit_fst, ih,
        u.controllers_fst, collect, collect, ← List.foldl_append, acceptedTypes, acceptedTypes,
        List.flatMap_append, List.flatMap_singleton, List.map_append, List.map_map]
      rfl

end Roster

namespace Analysis

/-- All that an analysis depends on: the number of files, the roster, and two figures of the catalog. -/
theorem ofUnits_congr {us vs : List SourceUnit} (hlength : us.length = vs.length)
    (hroster : (Roster.ofUnits (Catalog.ofUnits us) us).1 =
      (Roster.ofUnits (Catalog.ofUnits vs) vs).1)
    (hcount : (Catalog.ofUnits us).count = (Catalog.ofUnits vs).count)
    (hambiguous : (Catalog.ofUnits us).ambiguous = (Catalog.ofUnits vs).ambiguous) :
    ofUnits us = ofUnits vs := by
  have hanalysis (ws : List SourceUnit) : ofUnits ws =
      ⟨(Roster.ofUnits (Catalog.ofUnits ws) ws).1.inventory,
        counts ws.length (Catalog.ofUnits ws) (Roster.ofUnits (Catalog.ofUnits ws) ws).1
          (Roster.ofUnits (Catalog.ofUnits ws) ws).1.inventory⟩ := rfl
  rw [hanalysis us, hanalysis vs, hroster, counts, counts, hlength, hcount, hambiguous]

/-- The inventory is the map of the entries of all controllers, in order. -/
theorem inventory_eq_ofList (us : List SourceUnit) :
    (ofUnits us).inventory =
      .ofList ((acceptedTypes us).map fun e => (e.1, e.2.entry (Catalog.ofUnits us))) := by
  have hroster : (ofUnits us).inventory =
      (Roster.ofUnits (Catalog.ofUnits us) us).1.inventory := rfl
  rw [hroster, Roster.ofUnits_fst, Roster.inventory_collect, List.map_map]
  congr 1
  apply List.map_congr_left
  intro e _
  rw [Function.comp_apply, DeclaredType.endpointMap_asController]
  rfl

/-- The inventory has an entry for every controller. The last controller of a name decides on the
entry, which has every endpoint of its own or of an interface it implements: of all files the last
interface that goes by the qualified key of the reference, else by its simple name. In the entry the last
method of a name decides on the types, which are listed in ascending order. -/
theorem inventory_ofUnits (us : List SourceUnit) :
    let catalog := Catalog.ofUnits us
    let history := us.flatMap (·.registrations)
    let inventory := (ofUnits us).inventory
    (∀ r : TypeReference, catalog.resolve r =
      ((history.findRev? (·.goesBy r.qualifiedKey)).or
        (history.findRev? (·.goesBy r.name))).map (·.type)) ∧
    (∀ k, k ∈ inventory.controllers.keys ↔
      ∃ u ∈ us, ∃ t ∈ u.types, t.isController ∧ k = u.lead ++ t.name) ∧
    ∀ k entry, inventory.get? k = some entry →
      ∃ t, latest? k (acceptedTypes us) = some t ∧
        (∀ e, e ∈ entry.keys ↔
          (∃ m ∈ t.endpointMethods, m.name = e) ∨
            ∃ r ∈ t.implemented, ∃ i, catalog.resolve r = some i ∧
              ∃ m ∈ i.endpointMethods, m.name = e) ∧
        ∀ e types, entry.get? e = some types →
          types.Pairwise (· < ·) ∧
            ∃ o, (t.offers catalog).findRev? (·.method.name == e) = some o ∧
              ∀ x, x ∈ types ↔ o.Exchanges x := by
  intro catalog history inventory
  have hinventory : inventory =
      .ofList ((acceptedTypes us).map fun e => (e.1, e.2.entry catalog)) := inventory_eq_ofList us
  refine ⟨(Catalog.records_ofUnits us).resolve, ?_, ?_⟩
  · intro k
    rw [hinventory, Inventory.ofList, SortedMap.mem_keys_ofList, ← mem_keys_acceptedTypes,
      List.map_map]
    rfl
  · intro k entry hentry
    rw [hinventory, Inventory.get?, Inventory.ofList, SortedMap.get?_ofList,
      latest?_map (DeclaredType.entry · catalog)] at hentry
    obtain ⟨t, ht, rfl⟩ := Option.map_eq_some_iff.1 hentry
    refine ⟨t, ht, ?_, ?_⟩
    · intro e
      rw [DeclaredType.mem_keys_entry, DeclaredType.mem_names_offers]
    · intro e types htypes
      rw [DeclaredType.get?_entry] at htypes
      obtain ⟨o, ho, rfl⟩ := Option.map_eq_some_iff.1 htypes
      refine ⟨SortedSet.pairwise_toList _, o, ho, ?_⟩
      intro x
      exact Offer.mem_types_endpoint

example :
    let first : DeclaredType :=
      ⟨"C", .classType, [⟨"Controller"⟩], [⟨"old", "Old", [], [⟨"GetMapping"⟩]⟩], []⟩
    let last : DeclaredType := ⟨"C", .classType, [⟨"a.RestController"⟩],
      [⟨"get", "Own", [⟨"id", "Long"⟩], [⟨"GetMapping"⟩]⟩,
        ⟨"put", "void", [⟨"id", "Long"⟩], [⟨"PutMapping"⟩]⟩], [⟨none, "Api"⟩]⟩
    let api : DeclaredType := ⟨"Api", .interfaceType, [],
      [⟨"get", "View", [⟨"id", "Long"⟩], [⟨"GetMapping"⟩]⟩], []⟩
    (ofUnits [⟨some "p", [first, last]⟩, ⟨some "q", [api]⟩]).inventory =
      .ofList [("p.C", .ofList [("get", ["View"]), ("put", ["Long"])])] := by
  decide

end Analysis

end EndpointAtlas
