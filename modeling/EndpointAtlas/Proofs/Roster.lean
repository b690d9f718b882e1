import EndpointAtlas.Inventory
import EndpointAtlas.Proofs.SortedMap

/-!
# Controllers collected in order

A roster keeps the last controller of each name and counts the others as replaced, and the endpoint map
of a controller keeps the last endpoint of each name. An insertion gives back the controller that it
replaces, which is the last one of that name so far.
-/

namespace EndpointAtlas

namespace Controller

theorem endpointMap_eq_ofList (x : Controller) :
    x.endpointMap = .ofList (x.endpoints.map fun e => (e.name, e.types.toList)) := by
  rw [endpointMap, flatten]
  induction x.endpoints using List.reverseRecOn with
  | nil => rfl
  | append_singleton es e ih =>
      rw [List.foldl_append, List.foldl_cons, List.foldl_nil, List.map_append, List.map_singleton,
        SortedMap.ofList_concat, ← ih]

theorem mem_keys_endpointMap {x : Controller} {name : String} :
    name ∈ x.endpointMap.keys ↔ ∃ e ∈ x.endpoints, e.name = name := by
  rw [endpointMap_eq_ofList, SortedMap.mem_keys_ofList]
  simp

/-- The last endpoint of a name decides on the types. -/
theorem get?_endpointMap (x : Controller) (name : String) :
    x.endpointMap.get? name = (x.endpoints.findRev? (·.name == name)).map (·.types.toList) := by
  rw [endpointMap_eq_ofList, SortedMap.get?_ofList, latest?_map_key]

/-- Where the endpoints come from does not matter. -/
theorem endpointMap_congr {x y : Controller}
    (h : x.endpoints.map (fun e => (e.name, e.types)) = y.endpoints.map fun e => (e.name, e.types)) :
    x.endpointMap = y.endpointMap := by
  have hlisted (es : List Endpoint) : es.map (fun e => (e.name, e.types.toList)) =
      (es.map fun e => (e.name, e.types)).map fun e => (e.1, e.2.toList) := by
    rw [List.map_map]
    rfl
  rw [endpointMap_eq_ofList, endpointMap_eq_ofList, hlisted, hlisted, h]

end Controller

namespace Roster

def collect (xs : List Controller) : Roster := xs.foldl (fun r x => (r.insert x).1) empty

theorem collect_concat (xs : List Controller) (x : Controller) :
    collect (xs ++ [x]) = ((collect xs).insert x).1 := by
  simp [collect]

theorem controllers_collect (xs : List Controller) :
    (collect xs).controllers = .ofList (xs.map fun x => (x.qualifiedName, x)) := by
  induction xs using List.reverseRecOn with
  | nil => rfl
  | append_singleton xs x ih =>
      rw [collect_concat, List.map_append, List.map_singleton, SortedMap.ofList_concat, ← ih]
      rfl

/-- Every controller added is kept or has been replaced. -/
theorem size_add_replaced (xs : List Controller) :
    (collect xs).size + (collect xs).replaced = xs.length := by
  induction xs using List.reverseRecOn with
  | nil => rfl
  | append_singleton xs x ih =>
      have hsize : ((collect xs).insert x).1.size =
          if ((collect xs).controllers.get? x.qualifiedName).isSome then (collect xs).size
          else (collect xs).size + 1 := SortedMap.size_insert ..
      have hreplaced : ((collect xs).insert x).1.replaced =
          if ((collect xs).controllers.get? x.qualifiedName).isSome then (collect xs).replaced + 1
          else (collect xs).replaced := rfl
      rw [collect_concat, hsize, hreplaced, List.length_append, List.length_singleton, ← ih]
      split <;> omega

theorem inventory_collect (xs : List Controller) :
    (collect xs).inventory = .ofList (xs.map fun x => (x.qualifiedName, x.endpointMap)) := by
  rw [inventory, controllers_collect, SortedMap.mapValues_ofList, List.map_map, Inventory.ofList]
  rfl

/-- The order of controllers with distinct names does not matter. -/
theorem collect_perm {xs ys : List Controller} (hperm : xs.Perm ys)
    (hdistinct : (xs.map (·.qualifiedName)).Nodup) : collect xs = collect ys := by
  have hcontrollers : (collect xs).controllers = (collect ys).controllers := by
    rw [controllers_collect, controllers_collect]
    refine SortedMap.ofList_perm (hperm.map _) ?_
    rwa [List.map_map]
  have hreplaced : (collect xs).replaced = (collect ys).replaced := by
    have hxs := size_add_replaced xs
    have hys := size_add_replaced ys
    rw [size] at hxs hys
    rw [hcontrollers, hperm.length_eq] at hxs
    omega
  cases hx : collect xs
  cases hy : collect ys
  rw [hx, hy] at hcontrollers hreplaced
  exact congrArg₂ Roster.mk hcontrollers hreplaced

/-! ### Histories of insertions -/

/-- The rosters that a sequence of insertions leads to, each with what its insertion gives back. -/
def insertions (r : Roster) : List Controller → List (Roster × Option Controller)
  | [] => []
  | x :: xs => r.insert x :: insertions (r.insert x).1 xs

theorem get?_collect (xs : List Controller) (name : String) :
    (collect xs).controllers.get? name = xs.findRev? (·.qualifiedName == name) := by
  rw [controllers_collect, SortedMap.get?_ofList, latest?_map_key, Option.map_id']

/-- An insertion gives back the last controller of the same name. -/
theorem insert_collect (xs : List Controller) (x : Controller) :
    (collect xs).insert x =
      (collect (xs ++ [x]), xs.findRev? (·.qualifiedName == x.qualifiedName)) :=
  Prod.ext (collect_concat xs x).symm (get?_collect xs x.qualifiedName)

theorem getElem?_insertions (before after : List Controller) (k : Nat) :
    ((collect before).insertions after)[k]? = after[k]?.map fun x =>
      (collect (before ++ after.take (k + 1)),
        (before ++ after.take k).findRev? (·.qualifiedName == x.qualifiedName)) := by
  induction after generalizing before k with
  | nil => rfl
  | cons x after ih =>
      rw [insertions, insert_collect]
      cases k with
      | zero => simp
      | succ k => simp [ih]

/-- Of all controllers inserted, in whatever order, the last one of each name is kept with the last
endpoint of each name, and the others are counted as replaced. -/
theorem insertions_empty (history : List Controller) :
    (∀ k x, history[k]? = some x → ∃ r previous,
      (empty.insertions history)[k]? = some (r, previous) ∧
      r = collect (history.take (k + 1)) ∧
      r.size + r.replaced = k + 1 ∧
      previous = (history.take k).findRev? (·.qualifiedName == x.qualifiedName)) ∧
    (∀ name, name ∈ (collect history).inventory.controllers.keys ↔
      ∃ x ∈ history, x.qualifiedName = name) ∧
    (∀ name m, (collect history).inventory.get? name = some m →
      ∃ x, history.findRev? (·.qualifiedName == name) = some x ∧ m = x.endpointMap) ∧
    ∀ x : Controller,
      (∀ name, name ∈ x.endpointMap.keys ↔ ∃ e ∈ x.endpoints, e.name = name) ∧
      (∀ name types, x.endpointMap.get? name = some types → types.Pairwise (· < ·) ∧
        ∃ e, x.endpoints.findRev? (·.name == name) = some e ∧ types = e.types.toList) ∧
      ∀ y : Controller, (y.endpoints.map fun e => (e.name, e.types)) =
        (x.endpoints.map fun e => (e.name, e.types)) → y.endpointMap = x.endpointMap := by
  refine ⟨?_, ?_, ?_, ?_⟩
  · intro k x hx
    have hstep := getElem?_insertions [] history k
    rw [hx, Option.map_some] at hstep
    refine ⟨_, _, hstep, rfl, ?_, rfl⟩
    have hk : k < history.length := (List.getElem?_eq_some_iff.1 hx).1
    rw [List.nil_append, size_add_replaced, List.length_take, Nat.min_eq_left hk]
  · intro name
    rw [inventory_collect, Inventory.ofList, SortedMap.mem_keys_ofList, List.map_map, List.mem_map]
    rfl
  · intro name m hm
    rw [inventory_collect, Inventory.get?, Inventory.ofList, SortedMap.get?_ofList,
      latest?_map_key] at hm
    obtain ⟨x, hx, rfl⟩ := Option.map_eq_some_iff.1 hm
    exact ⟨x, hx, rfl⟩
  · intro x
    refine ⟨fun name => Controller.mem_keys_endpointMap, ?_, fun y => Controller.endpointMap_congr⟩
    intro name types htypes
    rw [Controller.get?_endpointMap] at htypes
    obtain ⟨e, he, rfl⟩ := Option.map_eq_some_iff.1 htypes
    exact ⟨SortedSet.pairwise_toList _, e, he, rfl⟩

example :
    let x (name endpoint : String) : Controller := ⟨name, [⟨endpoint, .declared, .empty⟩]⟩
    (empty.insertions [x "A" "f", x "B" "f", x "A" "g", x "A" "h"]).map (·.2) =
      [none, none, some (x "A" "f"), some (x "A" "g")] := by
  decide

end Roster

end EndpointAtlas
