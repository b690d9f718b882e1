import EndpointAtlas.Declaration.Source
import EndpointAtlas.Proofs.FirmNodes
import EndpointAtlas.Proofs.NodePlaces

/-!
# The first repair of a tree

The search for the first repair passes over every node that says that it holds none. Where all nodes say
this rightly it misses nothing: it ends where a search of all nodes ends, at the first repair in source
order, and a strict reader refuses the text at the place where this repair stands.
-/

namespace EndpointAtlas

namespace Syntax

theorem Position.after_append (p : Position) (cs ds : List Char) :
    p.after (cs ++ ds) = (p.after cs).after ds := List.foldl_append

namespace Node

variable {n x : Node} {ns : List Node} {path : List Nat} {p : Position}

/-! ### The text before a node -/

/-- The characters of a tree before the node at the end of a way down, with the blanks before that. -/
def textBefore : Node → List Nat → List Char
  | n, [] => n.gap
  | n, i :: path => sourceOf (n.children.take i) ++ (n.children[i]?.map (textBefore · path)).getD []

/-- Where the node at the end of a way down stands in a tree that starts, with its blanks, at `p`. -/
def placeOf (p : Position) (n : Node) (path : List Nat) : Position := p.after (n.textBefore path)

theorem source_eq_sourceOf {c : Node} (hc : c ∈ n.children) : n.source = sourceOf n.children := by
  cases n with
  | leaf => cases hc
  | branch => rfl

/-- The text of a node follows what is before it. -/
theorem exists_source_eq_textBefore (h : n.descend? path = some x) :
    ∃ rest, n.source = n.textBefore path ++ x.text ++ rest := by
  induction path generalizing n with
  | nil =>
      cases h
      exact ⟨[], by rw [List.append_nil, textBefore, ← source_eq]⟩
  | cons i path ih =>
      obtain ⟨c, hc, hx⟩ := Option.bind_eq_some_iff.1 h
      obtain ⟨rest, hrest⟩ := ih hx
      obtain ⟨hlt, hget⟩ := List.getElem?_eq_some_iff.1 hc
      have hsplit : n.children = n.children.take i ++ c :: n.children.drop (i + 1) := by
        rw [← hget, ← List.drop_eq_getElem_cons hlt, List.take_append_drop]
      refine ⟨rest ++ sourceOf (n.children.drop (i + 1)), ?_⟩
      rw [source_eq_sourceOf (List.mem_of_getElem? hc), hsplit, sourceOf_append, sourceOf, hrest,
        ← hsplit, textBefore, hc, Option.map_some, Option.getD_some]
      simp only [List.append_assoc]

/-! ### A search of all nodes -/

/-- A node and all nodes below it in source order, with the ways down to them. -/
def places (n : Node) : List (List Nat × Node) := ([], n) :: n.located

/-- The first repair among all nodes of a tree. -/
def firstFlawPlace? (n : Node) : Option (List Nat × Node) := n.places.find? fun l => l.2.isFlaw

theorem mem_places_iff : (path, x) ∈ n.places ↔ n.descend? path = some x := by
  rw [places, List.mem_cons, mem_located_iff, Prod.mk.injEq]
  constructor
  · rintro (⟨rfl, rfl⟩ | ⟨-, hx⟩)
    · rfl
    · exact hx
  · intro hx
    by_cases hpath : path = []
    · subst hpath
      exact Or.inl ⟨rfl, (Option.some.inj hx).symm⟩
    · exact Or.inr ⟨hpath, hx⟩

theorem pairwise_places (n : Node) : n.places.Pairwise fun l m => l.1 < m.1 := by
  refine List.pairwise_cons.2 ⟨?_, pairwise_located n⟩
  rintro ⟨path, x⟩ hl
  obtain ⟨i, rest, rfl⟩ := List.exists_cons_of_ne_nil (mem_located_iff.1 hl).1
  exact List.nil_lt_cons _ _

/-- The first repair is the one that all others come after. -/
theorem firstFlawPlace?_eq_some_iff : n.firstFlawPlace? = some (path, x) ↔
    n.descend? path = some x ∧ x.isFlaw ∧
      ∀ path' x', n.descend? path' = some x' → x'.isFlaw → path' = path ∨ path < path' := by
  have hfirst {path x} (h : n.firstFlawPlace? = some (path, x)) : n.descend? path = some x ∧
      x.isFlaw ∧ ∀ path' x', n.descend? path' = some x' → x'.isFlaw → path' = path ∨ path < path' := by
    have hsorted := pairwise_places n
    obtain ⟨hflaw, before, after, hsplit, hbefore⟩ := List.find?_eq_some_iff_append.1 h
    refine ⟨mem_places_iff.1 (List.mem_of_find?_eq_some h), hflaw, fun path' x' hx' hflaw' => ?_⟩
    have hmem := mem_places_iff.2 hx'
    rw [hsplit] at hsorted hmem
    rw [List.mem_append, List.mem_cons] at hmem
    obtain hmem | heq | hmem := hmem
    · have hnone := hbefore _ hmem
      simp [hflaw'] at hnone
    · exact Or.inl (Prod.mk.inj heq).1
    · have hlater := (List.pairwise_append.1 hsorted).2.1
      exact Or.inr ((List.pairwise_cons.1 hlater).1 _ hmem)
  refine ⟨hfirst, ?_⟩
  rintro ⟨hx, hflaw, hleast⟩
  cases hfound : n.firstFlawPlace? with
  | none =>
      have hnone := List.find?_eq_none.1 hfound _ (mem_places_iff.2 hx)
      exact absurd hflaw hnone
  | some l =>
      obtain ⟨hl, hflaw', hleast'⟩ := hfirst hfound
      have hpath : l.1 = path := by
        obtain heq | hlt := hleast _ _ hl hflaw'
        · exact heq
        · obtain heq | hgt := hleast' _ _ hx hflaw
          · exact heq.symm
          · exact absurd hgt (List.lt_asymm hlt)
      rw [hpath, hx, Option.some_inj] at hl
      rw [hl, ← hpath]

/-! ### Trees that tell rightly where repairs are -/

/-- Whether every node of a tree says that it holds a repair exactly if it is one or there is one below
it. -/
def IsHonest (n : Node) : Prop := ∀ x ∈ n.subnodes, x.isBroken ↔ ∃ y ∈ x.subnodes, y.isFlaw

instance (n : Node) : Decidable n.IsHonest :=
  inferInstanceAs (Decidable (∀ x ∈ n.subnodes, x.isBroken ↔ ∃ y ∈ x.subnodes, y.isFlaw))

theorem mem_subnodes_iff_descend? : x ∈ n.subnodes ↔ ∃ path, n.descend? path = some x := by
  induction n using children_induction with
  | step n ih =>
  rw [mem_subnodes_iff]
  constructor
  · rintro (rfl | ⟨c, hc, hx⟩)
    · exact ⟨[], rfl⟩
    · obtain ⟨i, hi⟩ := List.mem_iff_getElem?.1 hc
      obtain ⟨path, hpath⟩ := (ih c hc).1 hx
      exact ⟨i :: path, by rw [descend?, hi, Option.bind_some, hpath]⟩
  · rintro ⟨path, hpath⟩
    cases path with
    | nil => exact Or.inl (Option.some.inj hpath).symm
    | cons i path =>
        obtain ⟨c, hc, hx⟩ := Option.bind_eq_some_iff.1 hpath
        have hmem := List.mem_of_getElem? hc
        exact Or.inr ⟨c, hmem, (ih c hmem).2 ⟨path, hx⟩⟩

theorem IsHonest.child {c : Node} (h : n.IsHonest) (hc : c ∈ n.children) : c.IsHonest :=
  fun x hx => h x (mem_subnodes_of_child hc hx)

/-- A node says that it holds a repair exactly if a search of all its nodes finds one. -/
theorem IsHonest.isSome_firstFlawPlace? (h : n.IsHonest) : n.firstFlawPlace?.isSome ↔ n.isBroken := by
  rw [h n (self_mem_subnodes n), firstFlawPlace?, List.find?_isSome]
  constructor
  · rintro ⟨⟨path, x⟩, hx, hflaw⟩
    exact ⟨x, mem_subnodes_iff_descend?.2 ⟨path, mem_places_iff.1 hx⟩, hflaw⟩
  · rintro ⟨x, hx, hflaw⟩
    obtain ⟨path, hpath⟩ := mem_subnodes_iff_descend?.1 hx
    exact ⟨(path, x), mem_places_iff.2 hpath, hflaw⟩

/-! ### The search that passes over nodes -/

mutual

/-- The repair that `firstFlaw` ends at, with the way down to it. -/
def foundFlaw? : Node → Option (List Nat × Node)
  | leaf kind role gap text missing =>
    if missing || kind == .error then some ([], leaf kind role gap text missing) else none
  | branch kind role broken ns =>
    if kind == .error then some ([], branch kind role broken ns)
    else if broken then foundFlawFrom? 0 ns
    else none

/-- The repair that `firstFlawOf` ends at among nodes of which the first has the number `i`. -/
def foundFlawFrom? (i : Nat) : List Node → Option (List Nat × Node)
  | [] => none
  | n :: ns => (n.foundFlaw?.map fun l => (i :: l.1, l.2)).or (foundFlawFrom? (i + 1) ns)

end

/-- Where the repair stands that is found among some children of a node. -/
theorem firstFlawOf_eq (before : List Node) (hchildren : n.children = before ++ ns)
    (h : ∀ c ∈ ns, ∀ p, c.firstFlaw p = c.foundFlaw?.map fun l => placeOf p c l.1) :
    firstFlawOf (p.after (sourceOf before)) ns =
      (foundFlawFrom? before.length ns).map fun l => placeOf p n l.1 := by
  induction ns generalizing before with
  | nil => rfl
  | cons c ns ih =>
      rw [List.forall_mem_cons] at h
      have hnext := ih (before ++ [c]) (by rw [hchildren, List.append_cons]) h.2
      rw [sourceOf_append, sourceOf_singleton, Position.after_append, List.length_append] at hnext
      have hplace (path : List Nat) :
          placeOf p n (before.length :: path) = placeOf (p.after (sourceOf before)) c path := by
        rw [placeOf, textBefore, hchildren, List.take_left, List.getElem?_append_right le_rfl,
          Nat.sub_self, List.getElem?_cons_zero, Option.map_some, Option.getD_some,
          Position.after_append, placeOf]
      rw [firstFlawOf, foundFlawFrom?, h.1, hnext]
      cases c.foundFlaw? with
      | none => rfl
      | some l => exact congrArg some (hplace l.1).symm

/-- The search gives the place of the repair that it ends at. -/
theorem firstFlaw_eq (n : Node) (p : Position) :
    n.firstFlaw p = n.foundFlaw?.map fun l => placeOf p n l.1 := by
  induction n using children_induction generalizing p with
  | step n ih =>
  cases n with
  | leaf kind role gap text missing =>
      rw [firstFlaw, foundFlaw?]
      split <;> rfl
  | branch kind role broken ns =>
      rw [firstFlaw, foundFlaw?]
      split
      · rfl
      · split
        · exact firstFlawOf_eq [] rfl ih
        · rfl

theorem foundFlawFrom?_eq (i : Nat) (h : ∀ c ∈ ns, c.foundFlaw? = c.firstFlawPlace?) :
    foundFlawFrom? i ns = (locatedFrom i ns).find? fun l => l.2.isFlaw := by
  induction ns generalizing i with
  | nil => rfl
  | cons c ns ih =>
      rw [List.forall_mem_cons] at h
      have hlisted : locatedFrom i (c :: ns) =
          c.places.map (fun l => (i :: l.1, l.2)) ++ locatedFrom (i + 1) ns := by
        rw [locatedFrom, places, List.map_cons]
      rw [foundFlawFrom?, h.1, ih (i + 1) h.2, hlisted, List.find?_append, List.find?_map,
        firstFlawPlace?]
      rfl

/-- Where every node tells rightly whether there is a repair in it, none is missed by passing over those
that say that there is none. -/
theorem IsHonest.foundFlaw?_eq (h : n.IsHonest) : n.foundFlaw? = n.firstFlawPlace? := by
  induction n using children_induction with
  | step n ih =>
  cases n with
  | leaf kind role gap text missing =>
      rw [foundFlaw?, firstFlawPlace?, places, List.find?_cons, isFlaw]
      split
      · next hflaw => rw [hflaw]
      · next hflaw =>
        rw [Bool.eq_false_iff.2 hflaw]
        rfl
  | branch kind role broken ns =>
      rw [foundFlaw?]
      split
      · next hflaw =>
        rw [firstFlawPlace?, places, List.find?_cons, isFlaw, hflaw]
      next hflaw =>
      have hbelow : (branch kind role broken ns).firstFlawPlace? =
          (locatedFrom 0 ns).find? fun l => l.2.isFlaw := List.find?_cons_of_neg hflaw
      cases broken with
      | true =>
          rw [if_pos rfl, hbelow]
          exact foundFlawFrom?_eq 0 fun c hc => ih c hc (h.child hc)
      | false =>
          rw [if_neg Bool.false_ne_true]
          cases hfound : (branch kind role false ns).firstFlawPlace? with
          | none => rfl
          | some l =>
              have hbroken := h.isSome_firstFlawPlace?.1 (by rw [hfound]; rfl)
              cases hbroken

end Node

end Syntax

/-! ### Texts that a strict reader refuses -/

namespace SourceUnit

open Syntax Node

theorem ofRoot_false_eq_error_iff {root : Node} {e : SyntaxError} :
    ofRoot false root = .error e ↔ root.isBroken ∧ e = ⟨(root.firstFlaw .start).getD .start⟩ := by
  rw [ofRoot, Bool.not_false, Bool.and_true]
  split
  · next hbroken => simp [hbroken, eq_comm]
  · next hbroken => simp [hbroken]

/-- In a tree whose nodes all tell rightly whether there is a repair in them a first repair is found
exactly if the root says that there is one. It is the one that a search of all nodes finds, the first in
source order, and a strict reader refuses the text at the place where its characters begin. -/
theorem firstFlaw_of_isHonest {root : Node} (h : root.IsHonest) :
    (∀ p, (root.firstFlaw p).isSome ↔ root.isBroken) ∧
    (∀ p, root.firstFlaw p = root.foundFlaw?.map fun l => placeOf p root l.1) ∧
    root.foundFlaw? = root.firstFlawPlace? ∧
    (∀ path x, root.foundFlaw? = some (path, x) ↔ root.descend? path = some x ∧ x.isFlaw ∧
      ∀ path' x', root.descend? path' = some x' → x'.isFlaw → path' = path ∨ path < path') ∧
    ∀ e, ofRoot false root = .error e ↔ ∃ path x rest, root.foundFlaw? = some (path, x) ∧
      e.position = placeOf .start root path ∧
      root.source = root.textBefore path ++ x.text ++ rest := by
  have hfound := h.foundFlaw?_eq
  refine ⟨fun p => ?_, root.firstFlaw_eq, hfound, fun path x => ?_, fun e => ?_⟩
  · rw [firstFlaw_eq, Option.isSome_map, hfound, h.isSome_firstFlawPlace?]
  · rw [hfound, firstFlawPlace?_eq_some_iff]
  · rw [ofRoot_false_eq_error_iff, ← h.isSome_firstFlawPlace?, firstFlaw_eq, hfound]
    cases hplace : root.firstFlawPlace? with
    | none => simp
    | some l =>
        obtain ⟨rest, hrest⟩ := exists_source_eq_textBefore (firstFlawPlace?_eq_some_iff.1 hplace).1
        constructor
        · rintro ⟨-, rfl⟩
          exact ⟨l.1, l.2, rest, rfl, rfl, hrest⟩
        · rintro ⟨path, x, rest, hl, hposition, -⟩
          cases hl
          exact ⟨rfl, congrArg SyntaxError.mk hposition⟩

set_option maxRecDepth 100000 in
theorem isHonest_ofRoot_unfinished :
    let root := Node.ofRoot (parse "package a\nclass A{B # c #}".toList)
    root.IsHonest ∧
      (root.foundFlaw?.map fun l => (l.1, l.2.text, placeOf .start root l.1)) =
        some ([0, 2], [], ⟨1, 10⟩) := by
  decide +kernel

/-- A semicolon that was put in comes before a skipped stretch with another one in it. -/
theorem firstFlaw_of_isHonest_unfinished :
    let root := Node.ofRoot (parse "package a\nclass A{B # c #}".toList)
    root.IsHonest ∧ root.isBroken ∧ root.firstFlaw .start = some ⟨1, 10⟩ ∧
      ofText false "package a\nclass A{B # c #}".toList = .error ⟨⟨1, 10⟩⟩ := by
  intro root
  obtain ⟨hhonest, hfirst⟩ := isHonest_ofRoot_unfinished
  obtain ⟨⟨path, x⟩, hfound, hplace⟩ := Option.map_eq_some_iff.1 hfirst
  rw [Prod.mk.injEq, Prod.mk.injEq] at hplace
  obtain ⟨hsome, hflaw, -, hleast, herror⟩ := firstFlaw_of_isHonest hhonest
  have hstart : root.firstFlaw .start = some ⟨1, 10⟩ := by
    rw [hflaw, hfound, Option.map_some, hplace.2.2]
  obtain ⟨rest, hrest⟩ := exists_source_eq_textBefore ((hleast path x).1 hfound).1
  exact ⟨hhonest, (hsome .start).1 (by rw [hstart]; rfl), hstart,
    (herror _).2 ⟨path, x, rest, hfound, hplace.2.2.symm, hrest⟩⟩

end SourceUnit

end EndpointAtlas
