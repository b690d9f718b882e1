import EndpointAtlas.Declaration.Lowering
import EndpointAtlas.Proofs.CommentRemoval
import Mathlib.Data.List.Basic

/-!
# Nodes before and after their comments are taken out

A node that is left of another has its kind and its role, and the text of a part that no comment stands
in. Searches among the children find what is left of what they found before, unless it is a comment that
is found.
-/

namespace EndpointAtlas

open Grammar Syntax

namespace Lowering

variable {n m : Node} {ns ms : List Node}

/-! ### What is read as text -/

/-- The roles that a node of some kind spells a name or a type in. -/
def spelledRoles : Kind → List Role
  | .construct .annotationMarker | .construct .annotationCall | .construct .classDeclaration
  | .construct .interfaceDeclaration | .construct .variableDeclarator => [.name]
  | .construct .methodDeclaration | .construct .formalParameter => [.name, .type, .dimensions]
  | _ => []

/-- The first part of a parameter with any number of arguments that is taken for its type. -/
def spreadType? (n : Node) : Option Node :=
  n.children.find? fun c =>
    c.isNamed && !isConstruct .modifiers c && !isConstruct .variableDeclarator c

/-- The nodes that names and types are read off where a node is lowered. -/
def spelled (n : Node) : List Node :=
  (spelledRoles n.kind).filterMap (child? n) ++
    match n.kind with
    | .construct .packageDeclaration =>
      (n.children.find? fun c => isConstruct .scopedIdentifier c || isIdentifier c).toList
    | .construct .spreadParameter => (spreadType? n).toList
    | .construct .typeList => n.subnodes.filter (isConstruct .scopedTypeIdentifier)
    | _ => []

/-- `m` is left of `n` without its comments, and no comment stands where `n` spells a name or a type. -/
structure Cleared (n m : Node) : Prop where
  formed : ∀ x ∈ n.subnodes, x.WellFormed
  spelled_free : ∀ x ∈ n.subnodes, ∀ y ∈ spelled x, y.CommentFree
  left : ∃ pending, m = (n.withoutComments pending).1

namespace Cleared

theorem kind (h : Cleared n m) : m.kind = n.kind := by
  obtain ⟨pending, rfl⟩ := h.left
  cases n <;> rfl

theorem role (h : Cleared n m) : m.role = n.role := by
  obtain ⟨pending, rfl⟩ := h.left
  cases n <;> rfl

theorem isNamed (h : Cleared n m) : m.isNamed = n.isNamed := by
  rw [Node.isNamed, Node.isNamed, h.kind]

theorem isConstruct (h : Cleared n m) (c : Construct) : isConstruct c m = isConstruct c n := by
  rw [Lowering.isConstruct, Lowering.isConstruct, h.kind]

theorem isIdentifier (h : Cleared n m) : isIdentifier m = isIdentifier n := by
  rw [Lowering.isIdentifier, Lowering.isIdentifier, h.kind]

theorem text (h : Cleared n m) (hpart : n.kind ≠ .construct .program) (hfree : n.CommentFree) :
    m.text = n.text := by
  obtain ⟨pending, rfl⟩ := h.left
  exact Node.text_withoutComments hpart hfree h.formed pending

/-- No child is a whole file. -/
theorem inner (h : Cleared n m) {c : Node} (hc : c ∈ n.children) : c.kind ≠ .construct .program :=
  (h.formed n (Node.self_mem_subnodes n)).inner c hc

end Cleared

/-! ### Children without the comments among them -/

/-- `ms` is left of `ns` without the comments among them and in them. -/
inductive AllCleared : List Node → List Node → Prop
  | nil : AllCleared [] []
  | skip {n : Node} {ns ms : List Node} : n.isComment → AllCleared ns ms → AllCleared (n :: ns) ms
  | keep {n m : Node} {ns ms : List Node} : ¬ n.isComment → Cleared n m → AllCleared ns ms →
      AllCleared (n :: ns) (m :: ms)

theorem allCleared_withoutCommentsOf (hformed : ∀ x ∈ Node.subnodesOf ns, x.WellFormed)
    (hfree : ∀ x ∈ Node.subnodesOf ns, ∀ y ∈ spelled x, y.CommentFree) (pending : List Char) :
    AllCleared ns (Node.withoutCommentsOf pending ns).1 := by
  induction ns generalizing pending with
  | nil => exact .nil
  | cons n ns ih =>
      simp only [Node.subnodesOf, List.mem_append] at hformed hfree
      have hrest := ih (fun x hx => hformed x (Or.inr hx)) (fun x hx => hfree x (Or.inr hx))
      by_cases hcomment : n.isComment
      · rw [Node.withoutCommentsOf_cons_comment hcomment]
        exact .skip hcomment (hrest _)
      · rw [Node.withoutCommentsOf_cons hcomment]
        exact .keep hcomment
          ⟨fun x hx => hformed x (Or.inl hx), fun x hx => hfree x (Or.inl hx), pending, rfl⟩ (hrest _)

theorem Cleared.children (h : Cleared n m) : AllCleared n.children m.children := by
  obtain ⟨pending, rfl⟩ := h.left
  cases n with
  | leaf _ _ _ _ _ => exact .nil
  | branch _ _ _ ns =>
      exact allCleared_withoutCommentsOf (fun x hx => h.formed x (List.mem_cons_of_mem _ hx))
        (fun x hx => h.spelled_free x (List.mem_cons_of_mem _ hx)) pending

namespace AllCleared

theorem filter (h : AllCleared ns ms) {p : Node → Bool}
    (hp : ∀ {c d}, Cleared c d → p d = p c) : AllCleared (ns.filter p) (ms.filter p) := by
  induction h with
  | nil => exact .nil
  | skip hcomment _ ih =>
      rw [List.filter_cons]
      split
      · exact .skip hcomment ih
      · exact ih
  | keep hplain hcleared _ ih =>
      rw [List.filter_cons, List.filter_cons, hp hcleared]
      split
      · exact .keep hplain hcleared ih
      · exact ih

theorem flatMap {α : Type} (h : AllCleared ns ms) {f : Node → List α}
    (hcomment : ∀ c ∈ ns, c.isComment → f c = [])
    (hf : ∀ {c d}, c ∈ ns → Cleared c d → f d = f c) : ms.flatMap f = ns.flatMap f := by
  induction h with
  | nil => rfl
  | skip hn _ ih =>
      rw [List.forall_mem_cons] at hcomment
      rw [List.flatMap_cons, hcomment.1 hn, List.nil_append,
        ih hcomment.2 fun hc => hf (List.mem_cons_of_mem _ hc)]
  | keep _ hcleared _ ih =>
      rw [List.forall_mem_cons] at hcomment
      rw [List.flatMap_cons, List.flatMap_cons, hf List.mem_cons_self hcleared,
        ih hcomment.2 fun hc => hf (List.mem_cons_of_mem _ hc)]

theorem filterMap {α : Type} (h : AllCleared ns ms) {f : Node → Option α}
    (hcomment : ∀ c ∈ ns, c.isComment → f c = none)
    (hf : ∀ {c d}, c ∈ ns → Cleared c d → f d = f c) : ms.filterMap f = ns.filterMap f := by
  rw [List.filterMap_eq_flatMap_toList, List.filterMap_eq_flatMap_toList]
  refine h.flatMap ?_ ?_
  · intro c hc hc'
    rw [hcomment c hc hc']
    rfl
  · intro c d hc hcleared
    rw [hf hc hcleared]

/-- The first nodes with a property correspond unless the first is a comment. -/
theorem find? (h : AllCleared ns ms) {p : Node → Bool} (hp : ∀ {c d}, Cleared c d → p d = p c)
    (hplain : ∀ c ∈ ns.find? p, ¬ c.isComment) :
    (ns.find? p = none ∧ ms.find? p = none) ∨
      ∃ c d, ns.find? p = some c ∧ ms.find? p = some d ∧ Cleared c d := by
  induction h with
  | nil => exact Or.inl ⟨rfl, rfl⟩
  | skip hcomment _ ih =>
      rw [List.find?_cons] at hplain ⊢
      split at hplain
      · exact absurd hcomment (hplain _ rfl)
      · exact ih hplain
  | keep _ hcleared _ ih =>
      rw [List.find?_cons] at hplain ⊢
      rw [List.find?_cons, hp hcleared]
      split
      · exact Or.inr ⟨_, _, rfl, rfl, hcleared⟩
      · next hn =>
        rw [hn] at hplain
        exact ih hplain

theorem map_find? {α : Type} (h : AllCleared ns ms) {p : Node → Bool} {f : Node → α}
    (hp : ∀ {c d}, Cleared c d → p d = p c) (hplain : ∀ c ∈ ns.find? p, ¬ c.isComment)
    (hf : ∀ {c d}, c ∈ ns.find? p → Cleared c d → f d = f c) :
    (ms.find? p).map f = (ns.find? p).map f := by
  obtain ⟨hc, hd⟩ | ⟨c, d, hc, hd, hcleared⟩ := h.find? hp hplain
  · rw [hc, hd]
  · rw [hc, hd, Option.map_some, Option.map_some, hf hc hcleared]

/-- The last nodes correspond unless the last is a comment. -/
theorem getLast? (h : AllCleared ns ms) (hplain : ∀ c ∈ ns.getLast?, ¬ c.isComment) :
    (ns.getLast? = none ∧ ms.getLast? = none) ∨
      ∃ c d, ns.getLast? = some c ∧ ms.getLast? = some d ∧ Cleared c d := by
  induction h with
  | nil => exact Or.inl ⟨rfl, rfl⟩
  | @skip n ns ms hcomment hrest ih =>
      cases ns with
      | nil => exact absurd hcomment (hplain n rfl)
      | cons n' ns =>
          rw [List.getLast?_cons_cons] at hplain ⊢
          exact ih hplain
  | @keep n m ns ms _ hcleared hrest ih =>
      cases ns with
      | nil =>
          cases hrest
          exact Or.inr ⟨n, m, rfl, rfl, hcleared⟩
      | cons n' ns =>
          rw [List.getLast?_cons_cons] at hplain ⊢
          obtain ⟨hnone, -⟩ | ⟨c, d, hc, hd, hcd⟩ := ih hplain
          · simp at hnone
          · refine Or.inr ⟨c, d, hc, ?_, hcd⟩
            rw [List.getLast?_cons, hd]
            rfl

theorem map_getLast? {α : Type} (h : AllCleared ns ms) {f : Node → α}
    (hplain : ∀ c ∈ ns.getLast?, ¬ c.isComment)
    (hf : ∀ {c d}, c ∈ ns.getLast? → Cleared c d → f d = f c) :
    ms.getLast?.map f = ns.getLast?.map f := by
  obtain ⟨hc, hd⟩ | ⟨c, d, hc, hd, hcleared⟩ := h.getLast? hplain
  · rw [hc, hd]
  · rw [hc, hd, Option.map_some, Option.map_some, hf hc hcleared]

end AllCleared

/-! ### Comments declare nothing -/

theorem isConstruct_of_isComment (h : n.isComment) (c : Construct) : isConstruct c n = false := by
  rw [Node.isComment, Bool.or_eq_true, beq_iff_eq, beq_iff_eq] at h
  obtain h | h := h <;> rw [isConstruct, h] <;> rfl

theorem not_isComment_of_isConstruct {c : Construct} (h : isConstruct c n) : ¬ n.isComment := by
  intro hcomment
  rw [isConstruct_of_isComment hcomment] at h
  cases h

theorem markup?_of_isComment (h : n.isComment) : markup? n = none := by
  rw [markup?, isConstruct_of_isComment h, isConstruct_of_isComment h]
  rfl

theorem declaredType?_of_isComment (h : n.isComment) : declaredType? n = none := by
  rw [declaredType?, isConstruct_of_isComment h, isConstruct_of_isComment h]
  rfl

theorem reference?_of_isComment (h : n.isComment) : reference? n = none := by
  cases n with
  | leaf kind role gap text missing =>
      rw [Node.isComment, Bool.or_eq_true, beq_iff_eq, beq_iff_eq, Node.kind] at h
      obtain rfl | rfl := h <;> rfl
  | branch kind role broken ns =>
      rw [Node.isComment, Bool.or_eq_true, beq_iff_eq, beq_iff_eq, Node.kind] at h
      obtain rfl | rfl := h <;> simp [reference?]

end Lowering

end EndpointAtlas
