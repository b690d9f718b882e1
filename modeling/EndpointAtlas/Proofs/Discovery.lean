import EndpointAtlas.Declaration.Lowering
import EndpointAtlas.Proofs.NodePlaces
import Mathlib.Data.List.Nodup

/-!
# Which types are found, and whose the methods are

The types of a source unit are its class and interface declarations, in source order and wherever they
stand. The methods of a type stand in the body of its declaration with nothing in between, so a method
belongs to one type, and a type has none of the methods of the types inside it.
-/

namespace EndpointAtlas

open Grammar Syntax

def TypeKind.construct : TypeKind → Construct
  | classType => .classDeclaration
  | interfaceType => .interfaceDeclaration

namespace Lowering

variable {root n : Node} {l m : List Nat × Node} {t : DeclaredType}

/-! ### Declarations of types -/

/-- Whether a node declares a class or an interface with a name. -/
def isDeclaration (n : Node) : Bool :=
  (isConstruct .classDeclaration n || isConstruct .interfaceDeclaration n) && nameOrEmpty n != ""

theorem isDeclaration_iff : isDeclaration n ↔
    (n.kind = .construct .classDeclaration ∨ n.kind = .construct .interfaceDeclaration) ∧
      nameOrEmpty n ≠ "" := by
  simp [isDeclaration, isConstruct]

/-- A node is lowered to a type if it declares one. -/
theorem isSome_declaredType? (n : Node) : (declaredType? n).isSome = isDeclaration n := by
  rw [declaredType?, isDeclaration]
  cases isConstruct .classDeclaration n <;> cases isConstruct .interfaceDeclaration n <;>
    by_cases hname : nameOrEmpty n = "" <;> simp [hname]

/-- What a declaration says of its type. -/
structure Declares (n : Node) (t : DeclaredType) : Prop where
  kind : n.kind = .construct t.kind.construct
  name : t.name = nameOrEmpty n
  name_nonempty : t.name ≠ ""
  annotations : t.annotations = Lowering.annotations n
  methods : t.methods = ((child? n .body).map Lowering.methods).getD []
  implemented : t.implemented = match t.kind with
    | .classType => ((child? n .interfaces).map Lowering.implemented).getD []
    | .interfaceType => []

theorem declares_of_declaredType? (h : declaredType? n = some t) : Declares n t := by
  rw [declaredType?] at h
  by_cases hclass : isConstruct .classDeclaration n
  · simp only [hclass, ↓reduceIte] at h
    split at h
    · cases h
    · next hempty =>
      cases h
      exact ⟨beq_iff_eq.1 hclass, rfl, by simpa using hempty, rfl, rfl, rfl⟩
  by_cases hinterface : isConstruct .interfaceDeclaration n
  · simp only [hclass, hinterface, Bool.false_eq_true, ↓reduceIte] at h
    split at h
    · cases h
    · next hempty =>
      cases h
      exact ⟨beq_iff_eq.1 hinterface, rfl, by simpa using hempty, rfl, rfl, rfl⟩
  · simp only [hclass, hinterface, Bool.false_eq_true, ↓reduceIte] at h
    cases h

theorem declaredTypes_eq (n : Node) :
    declaredTypes n = (declaredType? n).toList ++ declaredTypesOf n.children := by
  cases n with
  | leaf kind role gap text missing =>
      have hnone : declaredType? (.leaf kind role gap text missing) = none := by
        rw [← Option.isNone_iff_eq_none, ← Option.not_isSome, isSome_declaredType?, isDeclaration]
        simp [nameOrEmpty, child?, Node.children]
      rw [hnone]
      rfl
  | branch kind role broken ns => rfl

/-- The types below a node are those that the nodes below it declare, in source order. -/
theorem declaredTypesOf_children (n : Node) :
    declaredTypesOf n.children = n.located.filterMap (declaredType? ·.2) := by
  induction n using Node.children_induction with
  | step n ih =>
  rw [Node.located_eq]
  -- The children are taken one by one, so the number of the first is any.
  generalize 0 = i
  generalize n.children = ns at ih ⊢
  induction ns generalizing i with
  | nil => rfl
  | cons c ns ihs =>
      rw [List.forall_mem_cons] at ih
      rw [declaredTypesOf, declaredTypes_eq, ih.1, ihs (i + 1) ih.2, Node.locatedFrom,
        List.filterMap_append, List.filterMap_cons, List.filterMap_map]
      cases declaredType? c <;> rfl

/-- The declarations of types below a node, with the ways down to them. -/
def declarations (root : Node) : List (List Nat × Node) :=
  root.located.filter fun l => isDeclaration l.2

theorem mem_declarations_iff :
    l ∈ declarations root ↔ l.1 ≠ [] ∧ root.descend? l.1 = some l.2 ∧ isDeclaration l.2 := by
  rw [declarations, List.mem_filter, Node.mem_located_iff, and_assoc]

theorem pairwise_declarations (root : Node) :
    (declarations root).Pairwise fun l m => l.1 < m.1 :=
  root.pairwise_located.filter _

/-- Each declaration is lowered to a type, and there are no other types. -/
theorem forall₂_declarations (root : Node) :
    List.Forall₂ (fun l t => declaredType? l.2 = some t) (declarations root)
      (SourceUnit.ofNode root).types := by
  have htypes : (SourceUnit.ofNode root).types = root.located.filterMap (declaredType? ·.2) :=
    declaredTypesOf_children root
  rw [htypes, declarations]
  induction root.located with
  | nil => exact .nil
  | cons l ls ih =>
      rw [List.filter_cons, List.filterMap_cons, ← isSome_declaredType?]
      cases hlowered : declaredType? l.2 with
      | none => exact ih
      | some t => exact .cons hlowered ih

/-! ### Methods -/

/-- The children of a node at a place, with their own places. -/
def parts (l : List Nat × Node) : List (List Nat × Node) :=
  l.2.children.zipIdx.map fun c => (l.1 ++ [c.2], c.1)

/-- The body of a declaration at a place. -/
def ownBody? (l : List Nat × Node) : Option (List Nat × Node) :=
  (parts l).find? (·.2.role == some .body)

/-- Whether a node declares a method whose name and type are there. -/
def isMethod (n : Node) : Bool := isConstruct .methodDeclaration n && (method? n).isSome

/-- The methods right in the body of a declaration at a place. -/
def ownMethods (l : List Nat × Node) : List (List Nat × Node) :=
  (ownBody? l).toList.flatMap fun body => (parts body).filter (isMethod ·.2)

theorem isMethod_iff : isMethod n ↔ n.kind = .construct .methodDeclaration ∧ (method? n).isSome := by
  simp [isMethod, isConstruct]

theorem map_parts (l : List Nat × Node) : (parts l).map (·.2) = l.2.children := by
  rw [parts, List.map_map]
  exact List.zipIdx_map_fst 0 _

theorem mem_parts_iff :
    m ∈ parts l ↔ ∃ i, m.1 = l.1 ++ [i] ∧ l.2.children[i]? = some m.2 := by
  rw [parts, List.mem_map]
  constructor
  · rintro ⟨⟨c, i⟩, hc, rfl⟩
    exact ⟨i, rfl, List.mem_zipIdx_iff_getElem?.1 hc⟩
  · rintro ⟨i, hplace, hc⟩
    exact ⟨(m.2, i), List.mem_zipIdx_iff_getElem?.2 hc, Prod.ext hplace.symm rfl⟩

theorem pairwise_parts (l : List Nat × Node) : (parts l).Pairwise fun m m' => m.1 < m'.1 := by
  have hsteps : l.2.children.zipIdx.Pairwise fun c d => c.2 < d.2 := by
    rw [← List.pairwise_map, List.zipIdx_map_snd]
    exact List.pairwise_lt_range'
  rw [parts, List.pairwise_map]
  exact hsteps.imp fun hlt => List.append_left_lt (List.cons_lt_cons_iff.2 (Or.inl hlt))

theorem map_ownBody? (l : List Nat × Node) : (ownBody? l).map (·.2) = child? l.2 .body := by
  rw [child?, ← map_parts, List.find?_map]
  rfl

theorem forall₂_filter_isMethod (ms : List (List Nat × Node)) :
    List.Forall₂ (fun m x => method? m.2 = some x) (ms.filter (isMethod ·.2))
      ((ms.map (·.2)).filterMap fun c =>
        if isConstruct .methodDeclaration c then method? c else none) := by
  induction ms with
  | nil => exact .nil
  | cons m ms ih =>
      rw [List.filter_cons, List.map_cons, List.filterMap_cons, isMethod]
      cases isConstruct .methodDeclaration m.2 with
      | false => exact ih
      | true =>
          cases hmethod : method? m.2 <;> simpa [hmethod] using ih

theorem forall₂_ownMethods (h : declaredType? l.2 = some t) :
    List.Forall₂ (fun m x => method? m.2 = some x) (ownMethods l) t.methods := by
  rw [(declares_of_declaredType? h).methods, ← map_ownBody?, ownMethods]
  cases ownBody? l with
  | none => exact .nil
  | some body =>
      have hmethods := forall₂_filter_isMethod (parts body)
      rw [map_parts] at hmethods
      rw [Option.toList_some, List.flatMap_singleton]
      exact hmethods

theorem exists_of_ownBody? {body : List Nat × Node} (h : ownBody? l = some body) :
    ∃ i, body.1 = l.1 ++ [i] ∧ l.2.children[i]? = some body.2 :=
  mem_parts_iff.1 (List.mem_of_find?_eq_some h)

/-- A method stands two steps below the declaration that it belongs to. -/
theorem mem_ownMethods_iff :
    m ∈ ownMethods l ↔ ∃ i j body, ownBody? l = some (l.1 ++ [i], body) ∧ m.1 = l.1 ++ [i, j] ∧
      body.children[j]? = some m.2 ∧ isMethod m.2 := by
  have hassoc (i j : Nat) : l.1 ++ [i] ++ [j] = l.1 ++ [i, j] := List.append_assoc ..
  simp only [ownMethods, List.mem_flatMap, Option.mem_toList, List.mem_filter, mem_parts_iff]
  constructor
  · rintro ⟨⟨place, body⟩, hbody, ⟨j, hj, hchild⟩, hmethod⟩
    obtain ⟨i, rfl, -⟩ := exists_of_ownBody? hbody
    exact ⟨i, j, body, hbody, hj.trans (hassoc i j), hchild, hmethod⟩
  · rintro ⟨i, j, body, hbody, hj, hchild, hmethod⟩
    exact ⟨(l.1 ++ [i], body), hbody, ⟨j, hj.trans (hassoc i j).symm, hchild⟩, hmethod⟩

theorem descend?_of_ownBody? {body : Node} {i : Nat} (hl : root.descend? l.1 = some l.2)
    (h : ownBody? l = some (l.1 ++ [i], body)) :
    root.descend? (l.1 ++ [i]) = some body := by
  obtain ⟨i', hplace : l.1 ++ [i] = l.1 ++ [i'], hchild⟩ := exists_of_ownBody? h
  rw [hplace, Node.descend?_concat hl, hchild]

theorem pairwise_ownMethods (l : List Nat × Node) :
    (ownMethods l).Pairwise fun m m' => m.1 < m'.1 := by
  rw [ownMethods]
  cases ownBody? l with
  | none => exact .nil
  | some body => simpa using (pairwise_parts body).filter _

/-- The place of a method tells where its declaration stands. -/
theorem eq_of_mem_ownMethods {l' m' : List Nat × Node} (h : m ∈ ownMethods l)
    (h' : m' ∈ ownMethods l') (hplace : m.1 = m'.1) : l.1 = l'.1 := by
  obtain ⟨i, j, _, -, hm, -⟩ := mem_ownMethods_iff.1 h
  obtain ⟨i', j', _, -, hm', -⟩ := mem_ownMethods_iff.1 h'
  exact (List.append_inj' (hm.symm.trans (hplace.trans hm')) rfl).1

theorem nodup_ownMethods (root : Node) :
    ((declarations root).flatMap fun l => (ownMethods l).map (·.1)).Nodup := by
  rw [List.nodup_flatMap]
  constructor
  · intro l _
    exact List.pairwise_map.2 ((pairwise_ownMethods l).imp fun hlt => Std.ne_of_lt hlt)
  · refine (pairwise_declarations root).imp fun {l l'} hlt place hplace hplace' => ?_
    obtain ⟨m, hm, rfl⟩ := List.mem_map.1 hplace
    obtain ⟨m', hm', hsame⟩ := List.mem_map.1 hplace'
    exact Std.ne_of_lt hlt (eq_of_mem_ownMethods hm hm' hsame.symm)

/-- Only the body of a declaration stands between it and its methods. -/
theorem eq_of_prefix_ownMethods {x : Node} {path : List Nat}
    (hl : root.descend? l.1 = some l.2) (hm : m ∈ ownMethods l) (hx : root.descend? path = some x)
    (hbelow : l.1 <+: path) (habove : path <+: m.1) :
    path = l.1 ∨ ownBody? l = some (path, x) ∨ path = m.1 := by
  obtain ⟨i, j, body, hbody, hplace, -⟩ := mem_ownMethods_iff.1 hm
  obtain ⟨u, rfl⟩ := hbelow
  obtain ⟨v, hv⟩ := habove
  have huv : u ++ v = [i, j] := by
    rw [hplace, List.append_assoc] at hv
    exact List.append_cancel_left hv
  match u, huv with
  | [], _ => exact Or.inl (List.append_nil _)
  | [k], huv =>
      obtain ⟨rfl, -⟩ := List.cons.inj huv
      rw [descend?_of_ownBody? hl hbody] at hx
      exact Or.inr (Or.inl (Option.some.inj hx ▸ hbody))
  | [k, k'], huv =>
      obtain ⟨rfl, htail⟩ := List.cons.inj huv
      obtain ⟨rfl, -⟩ := List.cons.inj htail
      exact Or.inr (Or.inr hplace.symm)

/-! ### The types of a source unit -/

/-- The types of a source unit are its class and interface declarations with a name, each once, in source
order and wherever they stand. Their methods stand right in their own bodies, and nothing but this body
is between a declaration and its methods, so no method belongs to two types. -/
theorem types_ofNode (root : Node) :
    (∀ path n, (path, n) ∈ declarations root ↔ path ≠ [] ∧ root.descend? path = some n ∧
      (n.kind = .construct .classDeclaration ∨ n.kind = .construct .interfaceDeclaration) ∧
      nameOrEmpty n ≠ "") ∧
    (declarations root).Pairwise (fun l l' => l.1 < l'.1) ∧
    List.Forall₂
      (fun l t => t.name = nameOrEmpty l.2 ∧ l.2.kind = .construct t.kind.construct ∧
        List.Forall₂ (fun m x => method? m.2 = some x) (ownMethods l) t.methods)
      (declarations root) (SourceUnit.ofNode root).types ∧
    (∀ l ∈ declarations root,
      (∀ m, m ∈ ownMethods l ↔ ∃ i j body, ownBody? l = some (l.1 ++ [i], body) ∧
        m.1 = l.1 ++ [i, j] ∧ root.descend? m.1 = some m.2 ∧
        m.2.kind = .construct .methodDeclaration ∧ (method? m.2).isSome) ∧
      (ownMethods l).Pairwise (fun m m' => m.1 < m'.1) ∧
      ∀ m ∈ ownMethods l, ∀ path x, root.descend? path = some x → l.1 <+: path → path <+: m.1 →
        path = l.1 ∨ ownBody? l = some (path, x) ∨ path = m.1) ∧
    ((declarations root).flatMap fun l => (ownMethods l).map (·.1)).Nodup := by
  refine ⟨fun path n => ?_, pairwise_declarations root, ?_, fun l hl => ?_, nodup_ownMethods root⟩
  · rw [mem_declarations_iff, isDeclaration_iff]
  · refine (forall₂_declarations root).imp fun l t hlowered => ?_
    have hdeclares := declares_of_declaredType? hlowered
    exact ⟨hdeclares.name, hdeclares.kind, forall₂_ownMethods hlowered⟩
  · obtain ⟨-, hplace, -⟩ := mem_declarations_iff.1 hl
    refine ⟨fun m => ?_, pairwise_ownMethods l, fun m hm path x => eq_of_prefix_ownMethods hplace hm⟩
    rw [mem_ownMethods_iff]
    refine exists_congr fun i => exists_congr fun j => exists_congr fun body =>
      and_congr_right fun hbody => and_congr_right fun hm => ?_
    rw [hm, ← Node.descend?_concat (descend?_of_ownBody? hplace hbody), List.append_assoc,
      isMethod_iff]
    rfl

end Lowering

end EndpointAtlas
