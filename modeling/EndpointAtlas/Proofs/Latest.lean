import EndpointAtlas.Sorted.Map
import Mathlib.Data.List.Find
import Mathlib.Data.List.Induction
import Mathlib.Data.List.Nodup
import Mathlib.Data.List.Pairwise

/-!
# The last one counts

Where later entries of a list overwrite earlier ones, the list says as much as a search from its end.
Such a search does not depend on the order of the list if it can find only one element.
-/

namespace EndpointAtlas

section FindRev

variable {α : Type} {p : α → Bool} {xs ys : List α} {x : α}

theorem findRev?_concat (p : α → Bool) (xs : List α) (x : α) :
    (xs ++ [x]).findRev? p = if p x then some x else xs.findRev? p := by
  rw [List.findRev?_eq_find?_reverse, List.findRev?_eq_find?_reverse, List.reverse_append,
    List.reverse_singleton, List.singleton_append, List.find?_cons]
  split <;> simp_all

theorem mem_of_findRev? (h : xs.findRev? p = some x) : x ∈ xs := by
  rw [List.findRev?_eq_find?_reverse] at h
  exact List.mem_reverse.1 (List.mem_of_find?_eq_some h)

theorem of_findRev? (h : xs.findRev? p = some x) : p x := by
  rw [List.findRev?_eq_find?_reverse] at h
  exact List.find?_some h

theorem findRev?_eq_none_iff : xs.findRev? p = none ↔ ∀ x ∈ xs, ¬ p x := by
  rw [List.findRev?_eq_find?_reverse, List.find?_eq_none]
  simp only [List.mem_reverse]

theorem findRev?_congr {q : α → Bool} (h : ∀ x ∈ xs, p x = q x) : xs.findRev? p = xs.findRev? q := by
  rw [List.findRev?_eq_find?_reverse, List.findRev?_eq_find?_reverse]
  exact List.find?_congr fun x hx => h x (List.mem_reverse.1 hx)

/-- Where at most one element satisfies `p`, the search finds it wherever it stands. -/
theorem findRev?_eq_some_iff_mem (hsingle : xs.Pairwise fun a b => ¬ (p a ∧ p b)) :
    xs.findRev? p = some x ↔ x ∈ xs ∧ p x := by
  constructor
  · intro h
    exact ⟨mem_of_findRev? h, of_findRev? h⟩
  · rintro ⟨hmem, hp⟩
    cases hsearch : xs.findRev? p with
    | none => exact absurd hp (findRev?_eq_none_iff.1 hsearch x hmem)
    | some y =>
        by_contra hne
        have hyx : y ≠ x := fun heq => hne (congrArg some heq)
        have : Std.Symm fun a b => ¬ (p a = true ∧ p b = true) := ⟨fun a b hab hba => hab hba.symm⟩
        exact hsingle.forall (mem_of_findRev? hsearch) hmem hyx ⟨of_findRev? hsearch, hp⟩

theorem findRev?_perm (hperm : xs.Perm ys) (hsingle : xs.Pairwise fun a b => ¬ (p a ∧ p b)) :
    xs.findRev? p = ys.findRev? p := by
  have hsingle' : ys.Pairwise fun a b => ¬ (p a ∧ p b) :=
    (hperm.pairwise_iff fun {_ _} hab hba => hab hba.symm).1 hsingle
  apply Option.ext
  intro x
  rw [findRev?_eq_some_iff_mem hsingle, findRev?_eq_some_iff_mem hsingle', hperm.mem_iff]

end FindRev

section Latest

variable {κ α β : Type} [DecidableEq κ] {k : κ} {v : α} {xs ys : List (κ × α)}

/-- The value of the last entry with a key. -/
def latest? (k : κ) (xs : List (κ × α)) : Option α := xs.reverse.lookup k

theorem latest?_concat (k l : κ) (v : α) (xs : List (κ × α)) :
    latest? k (xs ++ [(l, v)]) = if k = l then some v else latest? k xs := by
  rw [latest?, List.reverse_append, List.reverse_singleton, List.singleton_append, lookup_entry]
  rfl

/-- The last entry whose key is computed from what it belongs to. -/
theorem latest?_map_key {γ : Type} (key : γ → κ) (f : γ → α) (k : κ) (xs : List γ) :
    latest? k (xs.map fun x => (key x, f x)) = (xs.findRev? (key · == k)).map f := by
  induction xs using List.reverseRecOn with
  | nil => rfl
  | append_singleton xs x ih =>
      rw [List.map_append, List.map_singleton, latest?_concat, ih, findRev?_concat]
      by_cases h : key x = k
      · simp [h]
      · rw [if_neg (Ne.symm h), beq_false_of_ne h]
        rfl

theorem latest?_eq_findRev? (k : κ) (xs : List (κ × α)) :
    latest? k xs = (xs.findRev? (·.1 == k)).map (·.2) := by
  rw [← latest?_map_key, List.map_id']

theorem latest?_map (f : α → β) (k : κ) (xs : List (κ × α)) :
    latest? k (xs.map fun e => (e.1, f e.2)) = (latest? k xs).map f := by
  rw [latest?_map_key, latest?_eq_findRev?, Option.map_map]
  rfl

theorem exists_latest?_iff : (∃ v, latest? k xs = some v) ↔ k ∈ xs.map (·.1) := by
  rw [← Option.isSome_iff_exists, ← Option.ne_none_iff_isSome, latest?_eq_findRev?, Ne,
    Option.map_eq_none_iff, findRev?_eq_none_iff]
  simp

theorem pairwise_of_nodup_keys (hdistinct : (xs.map (·.1)).Nodup) (k : κ) :
    xs.Pairwise fun a b => ¬ ((a.1 == k) ∧ (b.1 == k)) := by
  refine (List.pairwise_map.1 hdistinct).imp ?_
  rintro a b hne ⟨ha, hb⟩
  exact hne ((eq_of_beq ha).trans (eq_of_beq hb).symm)

/-- With distinct keys every entry is the last one with its key. -/
theorem latest?_eq_some_iff_mem (hdistinct : (xs.map (·.1)).Nodup) :
    latest? k xs = some v ↔ (k, v) ∈ xs := by
  rw [latest?_eq_findRev?, Option.map_eq_some_iff]
  constructor
  · rintro ⟨e, he, rfl⟩
    have hfound := of_findRev? he
    have hkey : e.1 = k := by simpa using hfound
    rw [← hkey]
    exact mem_of_findRev? he
  · intro hmem
    have hsingle := pairwise_of_nodup_keys hdistinct k
    exact ⟨(k, v), (findRev?_eq_some_iff_mem hsingle).2 ⟨hmem, beq_self_eq_true k⟩, rfl⟩

theorem latest?_perm (k : κ) (hperm : xs.Perm ys) (hdistinct : (xs.map (·.1)).Nodup) :
    latest? k xs = latest? k ys := by
  have hsearch := findRev?_perm hperm (pairwise_of_nodup_keys hdistinct k)
  rw [latest?_eq_findRev?, latest?_eq_findRev?, hsearch]

end Latest

end EndpointAtlas
