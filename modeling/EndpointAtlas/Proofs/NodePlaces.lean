import EndpointAtlas.Proofs.CommentRemoval
import Mathlib.Data.List.Basic

/-!
# Where nodes stand in a tree

A node may stand at several places of a tree, so a place is told by the way down to it, as a list of the
numbers of the children. The order of such lists is source order, where a node comes before all that
stands in it.
-/

namespace EndpointAtlas.Syntax.Node

/-- The node at the end of a way down. -/
def descend? : Node → List Nat → Option Node
  | n, [] => some n
  | n, i :: path => n.children[i]?.bind (descend? · path)

theorem descend?_append (n : Node) (path rest : List Nat) :
    n.descend? (path ++ rest) = (n.descend? path).bind (·.descend? rest) := by
  induction path generalizing n with
  | nil => rfl
  | cons i path ih =>
      rw [List.cons_append, descend?, descend?]
      cases n.children[i]? with
      | none => rfl
      | some c => exact ih c

theorem descend?_concat {n m : Node} {path : List Nat} (h : n.descend? path = some m) (i : Nat) :
    n.descend? (path ++ [i]) = m.children[i]? := by
  rw [descend?_append, h, Option.bind_some, descend?]
  cases m.children[i]? <;> rfl

mutual

/-- All nodes below a node, with the ways down to them. -/
def located : Node → List (List Nat × Node)
  | leaf .. => []
  | branch _ _ _ ns => locatedFrom 0 ns

/-- Some nodes and all nodes below them, where the first of them has the number `i`. -/
def locatedFrom (i : Nat) : List Node → List (List Nat × Node)
  | [] => []
  | n :: ns => ([i], n) :: n.located.map (fun l => (i :: l.1, l.2)) ++ locatedFrom (i + 1) ns

end

theorem located_eq (n : Node) : n.located = locatedFrom 0 n.children := by
  cases n <;> rfl

theorem mem_locatedFrom_iff {i : Nat} {ns : List Node} {path : List Nat} {x : Node} :
    (path, x) ∈ locatedFrom i ns ↔ ∃ k c, ns[k]? = some c ∧
      ((path = [i + k] ∧ x = c) ∨ ∃ rest, path = (i + k) :: rest ∧ (rest, x) ∈ c.located) := by
  induction ns generalizing i with
  | nil => simp [locatedFrom]
  | cons n ns ih =>
      simp only [locatedFrom, List.cons_append, List.mem_cons, List.mem_append, List.mem_map, ih,
        Prod.mk.injEq, Prod.exists]
      constructor
      · rintro (⟨rfl, rfl⟩ | ⟨rest, _, hrest, rfl, rfl⟩ | ⟨k, c, hc, hplace⟩)
        · exact ⟨0, x, rfl, Or.inl ⟨rfl, rfl⟩⟩
        · exact ⟨0, n, rfl, Or.inr ⟨rest, rfl, hrest⟩⟩
        · refine ⟨k + 1, c, hc, ?_⟩
          rwa [show i + (k + 1) = i + 1 + k by omega]
      · rintro ⟨k, c, hc, hplace⟩
        cases k with
        | zero =>
            cases hc
            obtain ⟨rfl, rfl⟩ | ⟨rest, rfl, hrest⟩ := hplace
            · exact Or.inl ⟨rfl, rfl⟩
            · exact Or.inr (Or.inl ⟨rest, x, hrest, rfl, rfl⟩)
        | succ k =>
            rw [show i + (k + 1) = i + 1 + k by omega] at hplace
            exact Or.inr (Or.inr ⟨k, c, hc, hplace⟩)

/-- Every way down but the empty one is listed. -/
theorem mem_located_iff {n x : Node} {path : List Nat} :
    (path, x) ∈ n.located ↔ path ≠ [] ∧ n.descend? path = some x := by
  induction n using children_induction generalizing path with
  | step n ih =>
  rw [located_eq, mem_locatedFrom_iff]
  constructor
  · rintro ⟨k, c, hc, ⟨rfl, rfl⟩ | ⟨rest, rfl, hrest⟩⟩
    · rw [Nat.zero_add, descend?, hc]
      exact ⟨List.cons_ne_nil _ _, rfl⟩
    · rw [Nat.zero_add, descend?, hc]
      exact ⟨List.cons_ne_nil _ _, ((ih c (List.mem_of_getElem? hc)).1 hrest).2⟩
  · rintro ⟨hne, hpath⟩
    obtain ⟨k, rest, rfl⟩ := List.exists_cons_of_ne_nil hne
    rw [descend?, Option.bind_eq_some_iff] at hpath
    obtain ⟨c, hc, hrest⟩ := hpath
    refine ⟨k, c, hc, ?_⟩
    rw [Nat.zero_add]
    by_cases hnil : rest = []
    · subst hnil
      exact Or.inl ⟨rfl, (Option.some.inj hrest).symm⟩
    · exact Or.inr ⟨rest, rfl, (ih c (List.mem_of_getElem? hc)).2 ⟨hnil, hrest⟩⟩

/-- The nodes are listed in source order. -/
theorem pairwise_located (n : Node) : n.located.Pairwise fun l m => l.1 < m.1 := by
  induction n using children_induction with
  | step n ih =>
  rw [located_eq]
  -- As in `locatedFrom`, the first of the children left has any number.
  generalize 0 = i
  generalize n.children = ns at ih ⊢
  induction ns generalizing i with
  | nil => exact .nil
  | cons c ns ihs =>
      rw [List.forall_mem_cons] at ih
      have hbelow : (c.located.map fun l => (i :: l.1, l.2)).Pairwise fun l m => l.1 < m.1 := by
        refine List.pairwise_map.2 (ih.1.imp ?_)
        exact fun hlt => List.cons_lt_cons_iff.2 (Or.inr ⟨rfl, hlt⟩)
      rw [locatedFrom, List.cons_append, List.pairwise_cons, List.pairwise_append]
      have hlater : ∀ l ∈ locatedFrom (i + 1) ns, ∀ rest : List Nat, i :: rest < l.1 := by
        rintro ⟨path, x⟩ hl rest
        obtain ⟨k, _, -, ⟨rfl, -⟩ | ⟨_, rfl, -⟩⟩ := mem_locatedFrom_iff.1 hl <;>
          exact List.cons_lt_cons_iff.2 (Or.inl (by omega))
      refine ⟨?_, hbelow, ihs (i + 1) ih.2, ?_⟩
      · intro l hl
        obtain hl | hl := List.mem_append.1 hl
        · obtain ⟨⟨path, x⟩, hx, rfl⟩ := List.mem_map.1 hl
          obtain ⟨k, rest, rfl⟩ := List.exists_cons_of_ne_nil (mem_located_iff.1 hx).1
          exact List.cons_lt_cons_iff.2 (Or.inr ⟨rfl, List.nil_lt_cons _ _⟩)
        · exact hlater l hl []
      · intro l hl m hm
        obtain ⟨l, -, rfl⟩ := List.mem_map.1 hl
        exact hlater m hm l.1

end EndpointAtlas.Syntax.Node
