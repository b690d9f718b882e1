import EndpointAtlas.Usage
import EndpointAtlas.Proofs.Statistics
import Mathlib.Algebra.BigOperators.Group.List.Lemmas

/-!
# How often a type is counted

A usage has a count for every type that some list of the inventory names, and the count is the number of
times the type is named. The lists of an analysis name no type twice, so there a count is a number of
endpoints.
-/

namespace EndpointAtlas

namespace Usage

theorem get?_mention (u : Usage) (type type' : String) :
    (u.mention type).get? type' =
      if type' = type then some ((u.get? type).getD 0 + 1) else u.get? type' := by
  unfold mention get? SortedMap.modify
  rw [SortedMap.get?_insert]

theorem get?_foldl_mention (types : List String) (type : String) :
    (types.foldl mention ⟨.empty⟩).get? type =
      if type ∈ types then some (types.count type) else none := by
  induction types using List.reverseRecOn with
  | nil => rfl
  | append_singleton types last ih =>
      rw [List.foldl_concat, get?_mention]
      by_cases heq : type = last
      · subst heq
        have hlast : type ∈ types ++ [type] := List.mem_append_right _ (List.mem_singleton_self type)
        rw [if_pos rfl, if_pos hlast, ih, List.count_append, List.count_singleton_self]
        by_cases hmem : type ∈ types
        · rw [if_pos hmem, Option.getD_some]
        · rw [if_neg hmem, List.count_eq_zero_of_not_mem hmem, Option.getD_none]
      · rw [if_neg heq, ih, List.count_append, List.count_singleton, beq_false_of_ne (Ne.symm heq)]
        simp [heq]

theorem get?_ofInventory (i : Inventory) (type : String) :
    (ofInventory i).get? type =
      if type ∈ i.typeLists.flatten then some (i.typeLists.flatten.count type) else none :=
  get?_foldl_mention _ type

end Usage

namespace Inventory

theorem length_typeLists (i : Inventory) : i.typeLists.length = i.endpointCount := by
  unfold typeLists endpointCount
  rw [List.length_flatMap]
  apply congrArg List.sum
  apply List.map_congr_left
  intro m _
  unfold SortedMap.values SortedMap.size
  rw [List.length_map]

/-- The types listed for each endpoint of each controller. -/
def listings (i : Inventory) : List ((String × String) × List String) :=
  i.controllers.toList.flatMap fun c => c.2.toList.map fun e => ((c.1, e.1), e.2)

theorem mem_listings {i : Inventory} {controller endpoint : String} {types : List String} :
    ((controller, endpoint), types) ∈ i.listings ↔
      ∃ m, i.get? controller = some m ∧ m.get? endpoint = some types := by
  simp only [listings, get?, SortedMap.get?_eq_some_iff, List.mem_flatMap, List.mem_map,
    Prod.exists, Prod.mk.injEq]
  constructor
  · rintro ⟨_, m, hm, _, _, htypes, ⟨rfl, rfl⟩, rfl⟩
    exact ⟨m, hm, htypes⟩
  · rintro ⟨m, hm, htypes⟩
    exact ⟨controller, m, hm, endpoint, types, htypes, ⟨rfl, rfl⟩, rfl⟩

/-- Each endpoint of each controller is listed once. -/
theorem nodup_listings (i : Inventory) : (i.listings.map (·.1)).Nodup := by
  rw [listings, List.map_flatMap, List.nodup_flatMap]
  constructor
  · rintro ⟨controller, m⟩ _
    rw [List.map_map]
    have hkeys : (m.toList.map (·.1)).Nodup := m.nodup_keys
    have hpairs := hkeys.map (f := fun e => (controller, e)) fun _ _ h => (Prod.mk.inj h).2
    rwa [List.map_map] at hpairs
  · refine i.controllers.sorted.imp ?_
    rintro ⟨c, m⟩ ⟨d, l⟩ hlt x hx hy
    simp only [List.map_map, List.mem_map, Function.comp_apply] at hx hy
    obtain ⟨_, -, rfl⟩ := hx
    obtain ⟨_, -, heq⟩ := hy
    exact Std.ne_of_lt hlt (Prod.mk.inj heq).1.symm

theorem map_listings (i : Inventory) : i.listings.map (·.2) = i.typeLists := by
  rw [listings, typeLists, SortedMap.values, List.map_flatMap, List.flatMap_map]
  simp only [List.map_map]
  rfl

theorem count_flatten_typeLists (i : Inventory) (type : String) :
    i.typeLists.flatten.count type = (i.listings.map (·.2.count type)).sum := by
  rw [List.count_flatten, ← map_listings, List.map_map]
  rfl

/-- Where no list names a type twice, a type is named as often as there are lists that name it. -/
theorem sum_count_listings {i : Inventory} (hdistinct : ∀ types ∈ i.typeLists, types.Nodup)
    (type : String) :
    (i.listings.map (·.2.count type)).sum = i.listings.countP (type ∈ ·.2) := by
  rw [← map_listings] at hdistinct
  generalize i.listings = listings at hdistinct ⊢
  induction listings with
  | nil => rfl
  | cons l ls ih =>
      rw [List.map_cons, List.forall_mem_cons] at hdistinct
      rw [List.map_cons, List.sum_cons, ih hdistinct.2, hdistinct.1.count, List.countP_cons, add_comm]
      simp only [decide_eq_true_eq]

/-- Where no list names a type twice, a type is counted at most once for each endpoint. -/
theorem count_le_endpointCount {i : Inventory} (hdistinct : ∀ types ∈ i.typeLists, types.Nodup)
    (type : String) : i.typeLists.flatten.count type ≤ i.endpointCount := by
  calc
    i.typeLists.flatten.count type = i.listings.countP (type ∈ ·.2) := by
      rw [count_flatten_typeLists, sum_count_listings hdistinct]
    _ ≤ i.listings.length := List.countP_le_length
    _ = i.endpointCount := by rw [← length_typeLists, ← map_listings, List.length_map]

end Inventory

namespace Analysis

theorem pairwise_typeLists {us : List SourceUnit} {types : List String}
    (h : types ∈ (ofUnits us).inventory.typeLists) : types.Pairwise (· < ·) := by
  unfold Inventory.typeLists at h
  obtain ⟨entry, hentry, htypes⟩ := List.mem_flatMap.1 h
  obtain ⟨t, -, rfl⟩ := List.mem_map.1 ((values_inventory us).mem_iff.1 hentry)
  rw [← SortedMap.filterMap_get?_keys] at htypes
  obtain ⟨name, -, hget⟩ := List.mem_filterMap.1 htypes
  rw [DeclaredType.get?_entry] at hget
  obtain ⟨o, -, rfl⟩ := Option.map_eq_some_iff.1 hget
  exact SortedSet.pairwise_toList _

theorem nodup_typeLists {us : List SourceUnit} :
    ∀ types ∈ (ofUnits us).inventory.typeLists, types.Nodup := fun _ htypes =>
  (pairwise_typeLists htypes).imp fun hlt => Std.ne_of_lt hlt

/-- In the usage of an analysis no count exceeds the number of endpoints. -/
theorem usage_le_endpointCount {us : List SourceUnit} {type : String} {n : Nat}
    (h : (Usage.ofInventory (ofUnits us).inventory).get? type = some n) :
    n ≤ (ofUnits us).inventory.endpointCount := by
  rw [Usage.get?_ofInventory] at h
  split at h
  · cases h
    exact Inventory.count_le_endpointCount nodup_typeLists type
  · cases h

end Analysis

namespace Usage

theorem mem_keys_ofInventory {i : Inventory} {type : String} :
    type ∈ (ofInventory i).counts.keys ↔ type ∈ i.typeLists.flatten := by
  rw [SortedMap.mem_keys_iff, ← Option.isSome_iff_exists, ← get?, get?_ofInventory]
  split
  · next hmem => exact iff_of_true rfl hmem
  · next hmem => exact iff_of_false Bool.false_ne_true hmem

/-- The counts add up to all that is listed. -/
theorem sum_values_ofInventory (i : Inventory) :
    (ofInventory i).counts.values.sum = i.typeLists.flatten.length := by
  have hkeys : (ofInventory i).counts.keys.Perm i.typeLists.flatten.dedup := by
    refine (List.perm_ext_iff_of_nodup (SortedMap.nodup_keys _) (List.nodup_dedup _)).2 ?_
    intro type
    rw [mem_keys_ofInventory, List.mem_dedup]
  have hvalues : (ofInventory i).counts.values =
      (ofInventory i).counts.keys.map i.typeLists.flatten.count := by
    rw [← SortedMap.filterMap_get?_keys, ← List.filterMap_eq_map]
    apply List.filterMap_congr
    intro type htype
    exact (get?_ofInventory i type).trans (if_pos (mem_keys_ofInventory.1 htype))
  rw [hvalues, (hkeys.map _).sum_nat, List.sum_map_count_dedup_eq_length]

/-- The types counted are those that some list names, and the count of a type is how often the lists
name it. In an analysis it is how many endpoints exchange the type. -/
theorem counts_ofInventory :
    (∀ i : Inventory,
      let usage := ofInventory i
      ((i.listings.map (·.1)).Nodup ∧
        ∀ controller endpoint types, ((controller, endpoint), types) ∈ i.listings ↔
          ∃ m, i.get? controller = some m ∧ m.get? endpoint = some types) ∧
      (∀ type, type ∈ usage.counts.keys ↔ ∃ l ∈ i.listings, type ∈ l.2) ∧
      (∀ type n, usage.get? type = some n →
        n = (i.listings.map (·.2.count type)).sum ∧ 1 ≤ n) ∧
      usage.counts.values.sum = (i.listings.map (·.2.length)).sum) ∧
    ∀ us : List SourceUnit,
      let i := (Analysis.ofUnits us).inventory
      ∀ type n, (ofInventory i).get? type = some n →
        n = i.listings.countP (type ∈ ·.2) ∧ n ≤ i.endpointCount := by
  have hcount {i : Inventory} {type : String} {n : Nat} (h : (ofInventory i).get? type = some n) :
      n = (i.listings.map (·.2.count type)).sum ∧ 1 ≤ n := by
    rw [get?_ofInventory] at h
    split at h
    · next hmem =>
      cases h
      exact ⟨i.count_flatten_typeLists type, List.count_pos_iff.2 hmem⟩
    · cases h
  constructor
  · intro i usage
    refine ⟨⟨i.nodup_listings, fun _ _ _ => Inventory.mem_listings⟩, fun type => ?_,
      fun type n => hcount, ?_⟩
    · rw [mem_keys_ofInventory, ← Inventory.map_listings, List.mem_flatten]
      simp only [List.mem_map, exists_exists_and_eq_and]
    · rw [sum_values_ofInventory, List.length_flatten, ← Inventory.map_listings, List.map_map]
      rfl
  · intro us i type n h
    refine ⟨?_, Analysis.usage_le_endpointCount h⟩
    rw [(hcount h).1, Inventory.sum_count_listings Analysis.nodup_typeLists]

example :
    let i : Inventory := .ofList [("C", .ofList [("a", ["B", "A", "B"]), ("b", ["B"])])]
    (ofInventory i).toList = [("A", 1), ("B", 3)] := by
  decide

end Usage

end EndpointAtlas
