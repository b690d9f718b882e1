import EndpointAtlas.Sorted.Set
import EndpointAtlas.Proofs.Latest
import Mathlib.Data.List.Dedup

/-!
# Sorted maps, key by key

What `get?` says of every key determines a sorted map, so two maps are compared key by key. A map made
from a list of entries gives each key the value of the last entry with that key.
-/

namespace EndpointAtlas

namespace SortedMap

variable {κ α β : Type} [LT κ]

theorem pairwise_keys (m : SortedMap κ α) : m.keys.Pairwise (· < ·) :=
  List.pairwise_map.2 m.sorted

theorem size_eq_length_keys (m : SortedMap κ α) : m.size = m.keys.length := by
  rw [size, keys, List.length_map]

section

variable [DecidableEq κ]

theorem mem_keys_iff {m : SortedMap κ α} {k : κ} : k ∈ m.keys ↔ ∃ v, m.get? k = some v := by
  rw [← Option.isSome_iff_exists, get?, List.lookup_isSome_iff]
  simp [keys]

theorem get?_mapValues (f : α → β) (m : SortedMap κ α) (k : κ) :
    (m.mapValues f).get? k = (m.get? k).map f := by
  simp only [mapValues, get?]
  induction m.toList with
  | nil => rfl
  | cons e xs ih =>
    rw [List.map_cons, lookup_entry, ih, show e :: xs = (e.1, e.2) :: xs from rfl, lookup_entry]
    split <;> rfl

end

variable [LE κ] [Std.LawfulOrderLT κ]

theorem nodup_keys (m : SortedMap κ α) : m.keys.Nodup := by
  refine m.pairwise_keys.imp ?_
  intro k l hlt heq
  subst heq
  exact Std.lt_irrefl hlt

variable [DecidableEq κ]

theorem get?_eq_some_iff {m : SortedMap κ α} {k : κ} {v : α} :
    m.get? k = some v ↔ (k, v) ∈ m.toList := by
  have hdistinct : (m.toList.reverse.map (·.1)).Nodup := by
    rw [List.map_reverse, List.nodup_reverse]
    exact m.nodup_keys
  have hlookup := latest?_eq_some_iff_mem (k := k) (v := v) hdistinct
  rwa [latest?, List.reverse_reverse, List.mem_reverse] at hlookup

/-- The values are what `get?` finds under the keys. -/
theorem filterMap_get?_keys (m : SortedMap κ α) : m.keys.filterMap m.get? = m.values := by
  rw [keys, values, List.filterMap_map, ← List.filterMap_eq_map]
  apply List.filterMap_congr
  intro e he
  exact get?_eq_some_iff.2 he

theorem get?_filter (p : κ → α → Bool) (m : SortedMap κ α) (k : κ) :
    (m.filter p).get? k = (m.get? k).filter (p k) := by
  apply Option.ext
  intro v
  rw [get?_eq_some_iff, filter, List.mem_filter, Option.filter_eq_some_iff, get?_eq_some_iff]

theorem size_filter (p : κ → α → Bool) (m : SortedMap κ α) :
    (m.filter p).size = m.keys.countP fun k => (m.get? k).any (p k) := by
  rw [size, filter, ← List.countP_eq_length_filter, keys, List.countP_map]
  apply List.countP_congr
  intro e he
  rw [Function.comp_apply, get?_eq_some_iff.2 he, Option.any_some]

variable [Std.IsLinearOrder κ]

/-- Maps that say the same of every key are the same. -/
theorem ext_get? {m n : SortedMap κ α} (h : ∀ k, m.get? k = n.get? k) : m = n := by
  have hmem : ∀ e, e ∈ m.toList ↔ e ∈ n.toList := by
    rintro ⟨k, v⟩
    rw [← get?_eq_some_iff, ← get?_eq_some_iff, h]
  have hperm : m.toList.Perm n.toList :=
    (List.perm_ext_iff_of_nodup (List.Nodup.of_map _ m.nodup_keys)
      (List.Nodup.of_map _ n.nodup_keys)).2 hmem
  have hlist : m.toList = n.toList := by
    refine hperm.eq_of_pairwise ?_ m.sorted n.sorted
    intro a b _ _ hab hba
    exact absurd (Std.lt_trans hab hba) Std.lt_irrefl
  cases m
  cases n
  simpa using hlist

variable [DecidableLT κ]

theorem ofList_concat (xs : List (κ × α)) (e : κ × α) :
    ofList (xs ++ [e]) = (ofList xs).insert e.1 e.2 := by
  simp [ofList]

theorem get?_ofList (xs : List (κ × α)) (k : κ) : (ofList xs).get? k = latest? k xs := by
  induction xs using List.reverseRecOn with
  | nil => rfl
  | append_singleton xs e ih => rw [ofList_concat, get?_insert, ih, latest?_concat]

theorem mem_keys_ofList {xs : List (κ × α)} {k : κ} : k ∈ (ofList xs).keys ↔ k ∈ xs.map (·.1) := by
  rw [mem_keys_iff, get?_ofList, exists_latest?_iff]

theorem keys_ofList_perm (xs : List (κ × α)) : (ofList xs).keys.Perm (xs.map (·.1)).dedup := by
  refine (List.perm_ext_iff_of_nodup (nodup_keys _) (List.nodup_dedup _)).2 ?_
  intro k
  rw [mem_keys_ofList, List.mem_dedup]

/-- A map made from a list has an entry for each key in the list. -/
theorem size_ofList (xs : List (κ × α)) : (ofList xs).size = (xs.map (·.1)).dedup.length := by
  rw [size_eq_length_keys, (keys_ofList_perm xs).length_eq]

theorem insert_keys_perm (m : SortedMap κ α) (k : κ) (v : α) :
    (m.insert k v).keys.Perm (if k ∈ m.keys then m.keys else k :: m.keys) := by
  have hmem : ∀ l, l ∈ (m.insert k v).keys ↔ l = k ∨ l ∈ m.keys := by
    intro l
    rw [mem_keys_iff, mem_keys_iff, get?_insert]
    by_cases h : l = k <;> simp [h]
  split
  · next hk =>
    refine (List.perm_ext_iff_of_nodup (nodup_keys _) m.nodup_keys).2 ?_
    intro l
    rw [hmem]
    exact ⟨fun h => h.elim (fun heq => heq ▸ hk) id, Or.inr⟩
  · next hk =>
    refine (List.perm_ext_iff_of_nodup (nodup_keys _) (List.nodup_cons.2 ⟨hk, m.nodup_keys⟩)).2 ?_
    intro l
    rw [hmem, List.mem_cons]

/-- A map grows by one entry with a new key, and does not with a key that it has. -/
theorem size_insert (m : SortedMap κ α) (k : κ) (v : α) :
    (m.insert k v).size = if (m.get? k).isSome then m.size else m.size + 1 := by
  rw [size_eq_length_keys, (insert_keys_perm m k v).length_eq, size_eq_length_keys]
  have hsome : k ∈ m.keys ↔ (m.get? k).isSome := by
    rw [mem_keys_iff, Option.isSome_iff_exists]
  by_cases h : k ∈ m.keys
  · rw [if_pos h, if_pos (hsome.1 h)]
  · rw [if_neg h, if_neg fun hs => h (hsome.2 hs), List.length_cons]

theorem ofList_toList (m : SortedMap κ α) : ofList m.toList = m := by
  apply ext_get?
  intro k
  apply Option.ext
  intro v
  rw [get?_ofList, latest?_eq_some_iff_mem m.nodup_keys, get?_eq_some_iff]

theorem mapValues_ofList (f : α → β) (xs : List (κ × α)) :
    (ofList xs).mapValues f = ofList (xs.map fun e => (e.1, f e.2)) := by
  apply ext_get?
  intro k
  rw [get?_mapValues, get?_ofList, get?_ofList, latest?_map]

theorem ofList_perm {xs ys : List (κ × α)} (hperm : xs.Perm ys)
    (hdistinct : (xs.map (·.1)).Nodup) : ofList xs = ofList ys := by
  apply ext_get?
  intro k
  rw [get?_ofList, get?_ofList, latest?_perm k hperm hdistinct]

end SortedMap

namespace SortedSet

theorem pairwise_toList (s : SortedSet) : s.toList.Pairwise (· < ·) := s.elements.pairwise_keys

theorem mem_toList_iff {s : SortedSet} {x : String} :
    x ∈ s.toList ↔ s.elements.get? x = some () := by
  rw [toList, SortedMap.mem_keys_iff]
  exact ⟨fun ⟨_, h⟩ => h, fun h => ⟨(), h⟩⟩

theorem mem_insert {s : SortedSet} {x y : String} :
    y ∈ (s.insert x).toList ↔ y = x ∨ y ∈ s.toList := by
  rw [mem_toList_iff, mem_toList_iff, insert, SortedMap.get?_insert]
  by_cases h : y = x <;> simp [h]

theorem ofList_concat (xs : List String) (x : String) :
    ofList (xs ++ [x]) = (ofList xs).insert x := by
  simp [ofList]

theorem mem_ofList {xs : List String} {x : String} : x ∈ (ofList xs).toList ↔ x ∈ xs := by
  induction xs using List.reverseRecOn with
  | nil => exact Iff.rfl
  | append_singleton xs y ih => rw [ofList_concat, mem_insert, ih, or_comm]; simp

theorem size_ofList (xs : List String) : (ofList xs).size = xs.dedup.length := by
  have hdistinct : (ofList xs).toList.Nodup := SortedMap.nodup_keys _
  have hperm : (ofList xs).toList.Perm xs.dedup := by
    refine (List.perm_ext_iff_of_nodup hdistinct (List.nodup_dedup _)).2 ?_
    intro x
    rw [mem_ofList, List.mem_dedup]
  rw [size, SortedMap.size_eq_length_keys, ← hperm.length_eq, toList]

theorem ext_mem {s t : SortedSet} (h : ∀ x, x ∈ s.toList ↔ x ∈ t.toList) : s = t := by
  have helements : s.elements = t.elements := by
    apply SortedMap.ext_get?
    intro x
    apply Option.ext
    intro u
    rw [← mem_toList_iff, ← mem_toList_iff, h]
  cases s
  cases t
  simpa using helements

theorem ofList_perm {xs ys : List String} (hperm : xs.Perm ys) : ofList xs = ofList ys := by
  apply ext_mem
  intro x
  rw [mem_ofList, mem_ofList, hperm.mem_iff]

end SortedSet

end EndpointAtlas
