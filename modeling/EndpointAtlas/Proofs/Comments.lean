import EndpointAtlas.Declaration.Source
import EndpointAtlas.Proofs.ClearedNodes

/-!
# Comments and what is declared

Names and types are read off the text of whole nodes. As long as no comment stands in such a node, a
source file declares the same with its comments and without them.
-/

namespace EndpointAtlas

open Grammar Syntax

namespace Lowering

variable {n m : Node} {ns ms : List Node}

/-! ### Names, annotations and parameters -/

/-- The last declarator of a parameter with any number of arguments. -/
def spreadDeclarator? (n : Node) : Option Node :=
  ((n.children.filter fun c => c.isNamed && !isConstruct .modifiers c).filter
    (isConstruct .variableDeclarator)).getLast?

theorem spreadParameter?_eq (n : Node) :
    spreadParameter? n = (spreadType? n).map fun type =>
      ⟨((spreadDeclarator? n).map nameOrEmpty).getD "", typeText type⟩ := by
  rw [spreadParameter?, spreadDeclarator?, spreadType?]
  simp only [List.partition_eq_filter_filter, List.head?_filter, List.find?_filter]
  congr 1
  congr 1
  funext c
  simp

namespace Cleared

theorem child? (h : Cleared n m) (r : Role) :
    (child? n r = none ∧ child? m r = none) ∨
      ∃ c d, child? n r = some c ∧ child? m r = some d ∧ Cleared c d := by
  refine h.children.find? (fun hcleared => by rw [hcleared.role]) ?_
  intro c hc hcomment
  have hmem := List.mem_of_find?_eq_some hc
  have hformed := h.formed c (Node.mem_subnodes_of_child hmem (Node.self_mem_subnodes c))
  have hrole := List.find?_some hc
  rw [(hformed.comment hcomment).1] at hrole
  cases hrole

theorem map_child? {α : Type} (h : Cleared n m) {f : Node → α} (r : Role)
    (hf : ∀ {c d}, Cleared c d → f d = f c) :
    (Lowering.child? m r).map f = (Lowering.child? n r).map f := by
  obtain ⟨hc, hd⟩ | ⟨c, d, hc, hd, hcleared⟩ := h.child? r
  · rw [hc, hd]
  · rw [hc, hd, Option.map_some, Option.map_some, hf hcleared]

/-- A child that something is spelled in has the same text. -/
theorem spelled_child? (h : Cleared n m) {r : Role} (hr : r ∈ spelledRoles n.kind) :
    (Lowering.child? n r = none ∧ Lowering.child? m r = none) ∨
      ∃ c d, Lowering.child? n r = some c ∧ Lowering.child? m r = some d ∧ d.text = c.text := by
  obtain hnone | ⟨c, d, hc, hd, hcleared⟩ := h.child? r
  · exact Or.inl hnone
  · have hspelled : c ∈ spelled n :=
      List.mem_append_left _ (List.mem_filterMap.2 ⟨r, hr, hc⟩)
    exact Or.inr ⟨c, d, hc, hd,
      hcleared.text (h.inner (List.mem_of_find?_eq_some hc))
        (h.spelled_free n (Node.self_mem_subnodes n) c hspelled)⟩

theorem nameOrEmpty (h : Cleared n m) (hr : .name ∈ spelledRoles n.kind) :
    nameOrEmpty m = nameOrEmpty n := by
  rw [Lowering.nameOrEmpty, Lowering.nameOrEmpty]
  obtain ⟨hc, hd⟩ | ⟨c, d, hc, hd, htext⟩ := h.spelled_child? hr
  · rw [hc, hd]
  · rw [hc, hd, Option.map_some, Option.map_some, textOf, textOf, htext]

theorem markup? (h : Cleared n m) : markup? m = markup? n := by
  rw [Lowering.markup?, Lowering.markup?, h.isConstruct, h.isConstruct]
  split
  · next hkind =>
    have hr : .name ∈ spelledRoles n.kind := by
      rw [Bool.or_eq_true, Lowering.isConstruct, Lowering.isConstruct, beq_iff_eq, beq_iff_eq] at hkind
      obtain hkind | hkind := hkind <;> rw [hkind] <;> decide
    obtain ⟨hc, hd⟩ | ⟨c, d, hc, hd, htext⟩ := h.spelled_child? hr
    · rw [hc, hd]
    · rw [hc, hd]
      dsimp only
      rw [compactText, compactText, htext]
  · rfl

theorem annotations (h : Cleared n m) : annotations m = annotations n := by
  refine h.children.flatMap ?_ ?_
  · intro c _ hcomment
    rw [isConstruct_of_isComment hcomment, markup?_of_isComment hcomment]
    rfl
  · intro c d _ hcleared
    rw [hcleared.isConstruct, hcleared.markup?]
    congr 1
    exact hcleared.children.filterMap (fun _ _ => markup?_of_isComment) fun _ h => h.markup?

theorem dimensioned (h : Cleared n m) (hr : .dimensions ∈ spelledRoles n.kind) {c d : Node}
    (htext : d.text = c.text) : dimensioned m d = dimensioned n c := by
  rw [Lowering.dimensioned, Lowering.dimensioned]
  obtain ⟨hx, hy⟩ | ⟨x, y, hx, hy, hxy⟩ := h.spelled_child? hr
  · rw [hx, hy]
    simp only [typeText, htext]
  · rw [hx, hy]
    simp only [typeText, htext, hxy]

theorem formalParameter? (h : Cleared n m) (hkind : n.kind = .construct .formalParameter) :
    formalParameter? m = formalParameter? n := by
  have hroles : spelledRoles n.kind = [.name, .type, .dimensions] := by rw [hkind]; rfl
  rw [Lowering.formalParameter?, Lowering.formalParameter?]
  obtain ⟨hc, hd⟩ | ⟨c, d, hc, hd, htext⟩ := h.spelled_child? (r := .type) (by simp [hroles])
  · rw [hc, hd]
    rfl
  · rw [hc, hd, Option.map_some, Option.map_some, h.nameOrEmpty (by simp [hroles]),
      h.dimensioned (by simp [hroles]) htext]

theorem map_spreadDeclarator? (h : Cleared n m) :
    (spreadDeclarator? m).map Lowering.nameOrEmpty =
      (spreadDeclarator? n).map Lowering.nameOrEmpty := by
  have hkind {c : Node} (hc : c ∈ spreadDeclarator? n) :
      Lowering.isConstruct .variableDeclarator c :=
    (List.mem_filter.1 (List.mem_of_getLast? hc)).2
  have hparts : AllCleared
      (n.children.filter fun c => c.isNamed && !Lowering.isConstruct .modifiers c)
      (m.children.filter fun c => c.isNamed && !Lowering.isConstruct .modifiers c) :=
    h.children.filter fun hcd => by rw [hcd.isNamed, hcd.isConstruct]
  refine (hparts.filter fun hcd => hcd.isConstruct .variableDeclarator).map_getLast?
    (fun c hc => not_isComment_of_isConstruct (hkind hc)) ?_
  intro c d hc hcleared
  apply hcleared.nameOrEmpty
  rw [eq_of_beq (hkind hc)]
  decide

theorem spreadParameter? (h : Cleared n m) (hkind : n.kind = .construct .spreadParameter) :
    spreadParameter? m = spreadParameter? n := by
  have hspelled {c : Node} (hc : c ∈ spreadType? n) : c.CommentFree := by
    refine h.spelled_free n (Node.self_mem_subnodes n) c (List.mem_append_right _ ?_)
    rw [hkind]
    exact Option.mem_toList.2 hc
  rw [spreadParameter?_eq, spreadParameter?_eq, h.map_spreadDeclarator?]
  refine h.children.map_find? (fun hcd => by simp only [hcd.isNamed, hcd.isConstruct])
    (fun c hc => hspelled hc c (Node.self_mem_subnodes c)) ?_
  intro c d hc hcleared
  rw [typeText, typeText, hcleared.text (h.inner (List.mem_of_find?_eq_some hc)) (hspelled hc)]

theorem parameter? (h : Cleared n m) : parameter? m = parameter? n := by
  rw [Lowering.parameter?, Lowering.parameter?, h.isConstruct, h.isConstruct]
  split
  · next hkind => exact h.formalParameter? (eq_of_beq hkind)
  · split
    · next hkind => exact h.spreadParameter? (eq_of_beq hkind)
    · rfl

theorem method? (h : Cleared n m) (hkind : n.kind = .construct .methodDeclaration) :
    method? m = method? n := by
  have hroles : spelledRoles n.kind = [.name, .type, .dimensions] := by rw [hkind]; rfl
  have hparameters {c d : Node} (hcleared : Cleared c d) :
      d.children.filterMap Lowering.parameter? = c.children.filterMap Lowering.parameter? := by
    refine hcleared.children.filterMap ?_ fun _ h => h.parameter?
    intro x _ hcomment
    rw [Lowering.parameter?, isConstruct_of_isComment hcomment, isConstruct_of_isComment hcomment]
    rfl
  rw [Lowering.method?, Lowering.method?]
  obtain ⟨hname, hname'⟩ | ⟨name, name', hname, hname', hnames⟩ :=
    h.spelled_child? (r := .name) (by simp [hroles])
  · rw [hname, hname']
  obtain ⟨htype, htype'⟩ | ⟨type, type', htype, htype', htypes⟩ :=
    h.spelled_child? (r := .type) (by simp [hroles])
  · rw [hname, hname', htype, htype']
  rw [hname, hname', htype, htype']
  simp only [textOf, hnames, h.dimensioned (by simp [hroles]) htypes, h.annotations,
    h.map_child? .parameters hparameters]

theorem methods (h : Cleared n m) : methods m = methods n := by
  refine h.children.filterMap ?_ ?_
  · intro c _ hcomment
    rw [isConstruct_of_isComment hcomment]
    rfl
  · intro c d _ hcleared
    rw [hcleared.isConstruct]
    split
    · next hkind => exact hcleared.method? (eq_of_beq hkind)
    · rfl

end Cleared

/-! ### References to other types -/

theorem firstReference?_eq (ns : List Node) :
    firstReference? ns = ((ns.find? (·.isNamed)).map reference?).getD none := by
  induction ns with
  | nil => rfl
  | cons n ns ih =>
      rw [firstReference?, List.find?_cons]
      split
      · next hnamed =>
        rw [hnamed]
        rfl
      · next hnamed => rw [Bool.eq_false_iff.2 hnamed, ih]

theorem lastReference?_eq (ns : List Node) (found : Option TypeReference) :
    lastReference? ns found = (((ns.filter (·.isNamed)).getLast?).map reference?).getD found := by
  induction ns generalizing found with
  | nil => rfl
  | cons n ns ih =>
      rw [lastReference?, ih, List.filter_cons]
      split
      · rw [List.getLast?_cons]
        cases (ns.filter (·.isNamed)).getLast? <;> rfl
      · rfl

theorem reference?_branch (kind : Kind) (role : Option Role) (broken : Bool) (ns : List Node) :
    reference? (.branch kind role broken ns) =
      match kind with
      | .construct .scopedTypeIdentifier =>
        TypeReference.parse (textOf (.branch kind role broken ns))
      | .construct .genericType => ((ns.find? (·.isNamed)).map reference?).getD none
      | .construct .annotatedType => ((ns.filter (·.isNamed)).getLast?.map reference?).getD none
      | _ => none := by
  split
  · rw [reference?]
  · rw [reference?, firstReference?_eq]
  · rw [reference?, lastReference?_eq]
  · next hscoped hgeneric hannotated => rw [reference?] <;> assumption

namespace Cleared

theorem reference? (h : Cleared n m)
    (hfree : ∀ x ∈ n.subnodes, Lowering.isConstruct .scopedTypeIdentifier x → x.CommentFree) :
    reference? m = reference? n := by
  induction n using Node.children_induction generalizing m with
  | step n ih =>
  have hself := Node.self_mem_subnodes n
  have hformed := h.formed n hself
  obtain ⟨pending, rfl⟩ := h.left
  cases n with
  | leaf kind role gap text missing => rfl
  | branch kind role broken ns =>
  have hparts : AllCleared ns (Node.withoutCommentsOf pending ns).1 := h.children
  have hchild {c d : Node} (hc : c ∈ ns) (hcleared : Cleared c d) :
      Lowering.reference? d = Lowering.reference? c :=
    ih c hc hcleared fun x hx => hfree x (Node.mem_subnodes_of_child hc hx)
  have htext := h.text
  rw [Node.withoutComments] at htext ⊢
  rw [reference?_branch, reference?_branch]
  -- The part that decides is the first or the last named one, and comments are named.
  split
  · rw [textOf, textOf, htext (by rw [Node.kind]; decide) (hfree _ hself rfl)]
  · congr 1
    exact hparts.map_find? (fun hcd => hcd.isNamed) (hformed.applied rfl)
      fun hc hcd => hchild (List.mem_of_find?_eq_some hc) hcd
  · congr 1
    exact (hparts.filter fun hcd => hcd.isNamed).map_getLast? (hformed.annotated rfl)
      fun hc hcd => hchild (List.mem_of_mem_filter (List.mem_of_getLast? hc)) hcd
  · rfl

theorem implemented (h : Cleared n m) : implemented m = implemented n := by
  refine (h.children.filter fun hcd => hcd.isConstruct .typeList).flatMap ?_ ?_
  · exact fun c hc hcomment => absurd hcomment (not_isComment_of_isConstruct (List.mem_filter.1 hc).2)
  · intro c d hc hcleared
    have hkind : c.kind = .construct .typeList := eq_of_beq (List.mem_filter.1 hc).2
    refine (hcleared.children.filter fun hcd => hcd.isNamed).filterMap
      (fun _ _ => reference?_of_isComment) ?_
    intro x y hx hxy
    refine hxy.reference? fun z hz hscoped => ?_
    refine hcleared.spelled_free c (Node.self_mem_subnodes c) z (List.mem_append_right _ ?_)
    rw [hkind]
    exact List.mem_filter.2
      ⟨Node.mem_subnodes_of_child (List.mem_of_mem_filter hx) hz, hscoped⟩

/-! ### Types and packages -/

theorem declaredType? (h : Cleared n m) : declaredType? m = declaredType? n := by
  have hname (hkind : Lowering.isConstruct .classDeclaration n ∨
      Lowering.isConstruct .interfaceDeclaration n) :
      Lowering.nameOrEmpty m = Lowering.nameOrEmpty n := by
    apply h.nameOrEmpty
    obtain hkind | hkind := hkind <;> rw [eq_of_beq hkind] <;> decide
  rw [Lowering.declaredType?, Lowering.declaredType?, h.isConstruct, h.isConstruct]
  by_cases hclass : Lowering.isConstruct .classDeclaration n
  · simp only [hclass, ↓reduceIte, hname (Or.inl hclass), h.annotations,
      h.map_child? .body fun hcd => hcd.methods, h.map_child? .interfaces fun hcd => hcd.implemented]
  · by_cases hinterface : Lowering.isConstruct .interfaceDeclaration n
    · simp only [hclass, hinterface, Bool.false_eq_true, ↓reduceIte, hname (Or.inr hinterface),
        h.annotations, h.map_child? .body fun hcd => hcd.methods]
    · simp only [hclass, hinterface, Bool.false_eq_true, ↓reduceIte]

theorem packageName (h : Cleared n m) (hkind : n.kind = .construct .packageDeclaration) :
    packageName m = packageName n := by
  have hspelled {c : Node} (hc : c ∈ n.children.find? fun c =>
      Lowering.isConstruct .scopedIdentifier c || Lowering.isIdentifier c) : c.CommentFree := by
    refine h.spelled_free n (Node.self_mem_subnodes n) c (List.mem_append_right _ ?_)
    rw [hkind]
    exact Option.mem_toList.2 hc
  rw [Lowering.packageName, Lowering.packageName]
  congr 1
  refine h.children.map_find? (fun hcd => by rw [hcd.isConstruct, hcd.isIdentifier])
    (fun c hc => hspelled hc c (Node.self_mem_subnodes c)) ?_
  intro c d hc hcleared
  rw [compactText, compactText, hcleared.text (h.inner (List.mem_of_find?_eq_some hc)) (hspelled hc)]

end Cleared

theorem declaredTypesOf_eq_flatMap (ns : List Node) : declaredTypesOf ns = ns.flatMap declaredTypes := by
  induction ns with
  | nil => rfl
  | cons n ns ih => rw [declaredTypesOf, ih, List.flatMap_cons]

theorem declaredTypes_of_isComment (hformed : n.WellFormed) (h : n.isComment) :
    declaredTypes n = [] := by
  cases n with
  | leaf _ _ _ _ _ => rfl
  | branch kind role broken ns =>
      have hns : ns = [] := (hformed.comment h).2
      rw [declaredTypes, declaredType?_of_isComment h, hns]
      rfl

theorem AllCleared.declaredTypesOf (h : AllCleared ns ms) (hformed : ∀ c ∈ ns, c.WellFormed)
    (hdeclared : ∀ {c d}, c ∈ ns → Cleared c d → declaredTypes d = declaredTypes c) :
    declaredTypesOf ms = declaredTypesOf ns := by
  rw [declaredTypesOf_eq_flatMap, declaredTypesOf_eq_flatMap]
  exact h.flatMap (fun c hc => declaredTypes_of_isComment (hformed c hc)) hdeclared

theorem Cleared.declaredTypes (h : Cleared n m) : declaredTypes m = declaredTypes n := by
  induction n using Node.children_induction generalizing m with
  | step n ih =>
  have hformed {c : Node} (hc : c ∈ n.children) : c.WellFormed :=
    h.formed c (Node.mem_subnodes_of_child hc (Node.self_mem_subnodes c))
  have htype := h.declaredType?
  obtain ⟨pending, rfl⟩ := h.left
  cases n with
  | leaf _ _ _ _ _ => rfl
  | branch kind role broken ns =>
  have hparts : AllCleared ns (Node.withoutCommentsOf pending ns).1 := h.children
  rw [Node.withoutComments] at htype ⊢
  rw [Lowering.declaredTypes, Lowering.declaredTypes, htype,
    hparts.declaredTypesOf (fun c hc => hformed hc) fun hc hcd => ih _ hc hcd]

theorem AllCleared.map_packageName (h : AllCleared ns ms) :
    (ms.filter (isConstruct .packageDeclaration)).map packageName =
      (ns.filter (isConstruct .packageDeclaration)).map packageName := by
  have hkind {c : Node} (hc : c ∈ ns.filter (isConstruct .packageDeclaration)) :
      isConstruct .packageDeclaration c := (List.mem_filter.1 hc).2
  rw [List.map_eq_flatMap, List.map_eq_flatMap]
  refine (h.filter fun hcd => hcd.isConstruct .packageDeclaration).flatMap ?_ ?_
  · exact fun c hc hcomment => absurd hcomment (not_isComment_of_isConstruct (hkind hc))
  · intro c d hc hcleared
    rw [hcleared.packageName (eq_of_beq (hkind hc))]

end Lowering

/-! ### Source files -/

namespace SourceUnit

open Lowering Node

variable {root : Node}

/-- Whether no comment stands in a node that something declared is spelled in. -/
def Spared (root : Node) : Prop :=
  ∀ x ∈ Node.subnodesOf root.children, ∀ y ∈ spelled x, y.CommentFree

instance (root : Node) : Decidable (Spared root) :=
  inferInstanceAs
    (Decidable (∀ x ∈ Node.subnodesOf root.children, ∀ y ∈ spelled x, y.CommentFree))

/-- What is declared does not change when the comments are taken out. -/
theorem ofNode_withoutComments (hformed : ∀ x ∈ Node.subnodesOf root.children, x.WellFormed)
    (hspared : Spared root) : ofNode (root.withoutComments []).1 = ofNode root := by
  have hchildren : (root.withoutComments []).1.children =
      (Node.withoutCommentsOf [] root.children).1 := by
    cases root <;> rfl
  have hparts : AllCleared root.children (root.withoutComments []).1.children := by
    rw [hchildren]
    exact allCleared_withoutCommentsOf hformed hspared []
  have hchild : ∀ c ∈ root.children, c.WellFormed := fun c hc =>
    hformed c (Node.mem_subnodesOf_iff.2 ⟨c, hc, Node.self_mem_subnodes c⟩)
  rw [ofNode, ofNode, package?, package?, hparts.map_packageName,
    hparts.declaredTypesOf hchild fun _ hcd => hcd.declaredTypes]

end SourceUnit

end EndpointAtlas
