import EndpointAtlas.Syntax.Node

/-!
# Syntax trees without their comments

Where a comment is taken out of a tree a space stays, and the next token has it in the blanks before it.
The other nodes are what they were but for these blanks, so a node that holds no comment has the same
text.
-/

namespace EndpointAtlas.Syntax

open Grammar

namespace Node

/-! ### Taking the comments out -/

mutual

/-- A node without the comments in it, and the blanks left over behind it. The `pending` blanks go before
its first token. -/
def withoutComments (pending : List Char) : Node → Node × List Char
  | leaf kind role gap text missing => (leaf kind role (pending ++ gap) text missing, [])
  | branch kind role broken ns =>
    let (ms, rest) := withoutCommentsOf pending ns
    (branch kind role broken ms, rest)

def withoutCommentsOf (pending : List Char) : List Node → List Node × List Char
  | [] => ([], pending)
  | n :: ns =>
    if n.isComment then withoutCommentsOf (pending ++ n.gap ++ [' ']) ns
    else
      let (m, rest) := n.withoutComments pending
      let (ms, rest) := withoutCommentsOf rest ns
      (m :: ms, rest)

end

mutual

/-- The source of a node with a space for each comment in it. -/
def blanked : Node → List Char
  | leaf _ _ gap text _ => gap ++ text
  | branch _ _ _ ns => blankedOf ns

def blankedOf : List Node → List Char
  | [] => []
  | n :: ns => (if n.isComment then n.gap ++ [' '] else n.blanked) ++ blankedOf ns

end

mutual

/-- A node and all nodes in it. -/
def subnodes : Node → List Node
  | leaf kind role gap text missing => [leaf kind role gap text missing]
  | branch kind role broken ns => branch kind role broken ns :: subnodesOf ns

def subnodesOf : List Node → List Node
  | [] => []
  | n :: ns => n.subnodes ++ subnodesOf ns

end

variable {n x : Node} {ns : List Node} {pending : List Char}

theorem withoutCommentsOf_cons_comment (h : n.isComment) :
    withoutCommentsOf pending (n :: ns) = withoutCommentsOf (pending ++ n.gap ++ [' ']) ns := by
  rw [withoutCommentsOf, if_pos h]

theorem withoutCommentsOf_cons (h : ¬ n.isComment) :
    withoutCommentsOf pending (n :: ns) =
      ((n.withoutComments pending).1 :: (withoutCommentsOf (n.withoutComments pending).2 ns).1,
        (withoutCommentsOf (n.withoutComments pending).2 ns).2) := by
  rw [withoutCommentsOf, if_neg h]

theorem mem_subnodesOf_iff : x ∈ subnodesOf ns ↔ ∃ c ∈ ns, x ∈ c.subnodes := by
  induction ns with
  | nil => simp [subnodesOf]
  | cons n ns ih => simp [subnodesOf, ih]

theorem mem_subnodes_iff : x ∈ n.subnodes ↔ x = n ∨ ∃ c ∈ n.children, x ∈ c.subnodes := by
  cases n with
  | leaf _ _ _ _ _ => simp [subnodes, children]
  | branch _ _ _ ns => rw [subnodes, List.mem_cons, mem_subnodesOf_iff, children]

theorem self_mem_subnodes (n : Node) : n ∈ n.subnodes := mem_subnodes_iff.2 (Or.inl rfl)

theorem mem_subnodes_of_child {c : Node} (hc : c ∈ n.children) (hx : x ∈ c.subnodes) :
    x ∈ n.subnodes :=
  mem_subnodes_iff.2 (Or.inr ⟨c, hc, hx⟩)

theorem sizeOf_lt_of_mem_children {c : Node} (h : c ∈ n.children) : sizeOf c < sizeOf n := by
  cases n with
  | leaf _ _ _ _ _ => simp [children] at h
  | branch kind role broken ns =>
      have hlt := List.sizeOf_lt_of_mem h
      rw [branch.sizeOf_spec]
      rw [children] at hlt
      omega

/-- What holds of a node whenever it holds of its children holds of every node. -/
theorem children_induction {motive : Node → Prop}
    (step : ∀ n, (∀ c ∈ n.children, motive c) → motive n) (n : Node) : motive n :=
  step n fun c _ => children_induction step c
termination_by sizeOf n
decreasing_by exact sizeOf_lt_of_mem_children ‹_›

mutual

/-- What is left has the source with the comments blanked out. -/
theorem source_withoutComments (pending : List Char) (n : Node) :
    (n.withoutComments pending).1.source ++ (n.withoutComments pending).2 =
      pending ++ n.blanked := by
  match n with
  | leaf _ _ gap text _ => simp [withoutComments, source, blanked]
  | branch _ _ _ ns =>
      rw [withoutComments, source, blanked]
      exact sourceOf_withoutCommentsOf pending ns

theorem sourceOf_withoutCommentsOf (pending : List Char) (ns : List Node) :
    sourceOf (withoutCommentsOf pending ns).1 ++ (withoutCommentsOf pending ns).2 =
      pending ++ blankedOf ns := by
  match ns with
  | [] => simp [withoutCommentsOf, sourceOf, blankedOf]
  | n :: ns =>
      rw [blankedOf]
      split
      · next h =>
        rw [withoutCommentsOf_cons_comment h, sourceOf_withoutCommentsOf _ ns]
        simp
      · next h =>
        rw [withoutCommentsOf_cons h, sourceOf, List.append_assoc, sourceOf_withoutCommentsOf _ ns,
          ← List.append_assoc, source_withoutComments pending n, List.append_assoc]

end

/-! ### How comments stand in a tree -/

def isLeaf : Node → Bool
  | leaf .. => true
  | branch .. => false

/-- Nodes as an unbroken tree has them. A comment is a leaf without a role. Any other node that is no
token has parts, unless it is a whole file, and no whole file is a part of a node. No comment comes
before the parts of a generic type or after those of an annotated type. -/
structure WellFormed (n : Node) : Prop where
  comment : n.isComment → n.role = none ∧ n.children = []
  parts : n.children = [] → n.isLeaf ∨ n.kind = .construct .program
  inner : ∀ c ∈ n.children, c.kind ≠ .construct .program
  applied : n.kind = .construct .genericType →
    ∀ c ∈ n.children.find? (·.isNamed), ¬ c.isComment
  annotated : n.kind = .construct .annotatedType →
    ∀ c ∈ (n.children.filter (·.isNamed)).getLast?, ¬ c.isComment

def CommentFree (n : Node) : Prop := ∀ x ∈ n.subnodes, ¬ x.isComment

instance (n : Node) : Decidable n.CommentFree :=
  inferInstanceAs (Decidable (∀ x ∈ n.subnodes, ¬ x.isComment))

mutual

/-- Where there is no comment only the blanks at the start change. -/
theorem withoutComments_of_commentFree (pending : List Char) (n : Node)
    (hpart : n.kind ≠ .construct .program) (hfree : n.CommentFree)
    (hformed : ∀ x ∈ n.subnodes, x.WellFormed) :
    (n.withoutComments pending).1.source = pending ++ n.source ∧
      (n.withoutComments pending).1.gap = pending ++ n.gap ∧
      (n.withoutComments pending).2 = [] := by
  match n with
  | leaf _ _ gap text _ => simp [withoutComments, source, Node.gap]
  | branch kind role broken ns =>
      have hself := hformed _ (self_mem_subnodes _)
      have hns : ns ≠ [] := by
        intro hns
        obtain hleaf | hprogram := hself.parts hns
        · cases hleaf
        · exact hpart hprogram
      exact withoutCommentsOf_of_commentFree pending ns (fun h => absurd h hns) hself.inner
        (fun x hx => hfree x (List.mem_cons_of_mem _ hx))
        (fun x hx => hformed x (List.mem_cons_of_mem _ hx))

theorem withoutCommentsOf_of_commentFree (pending : List Char) (ns : List Node)
    (hpending : ns = [] → pending = []) (hparts : ∀ n ∈ ns, n.kind ≠ .construct .program)
    (hfree : ∀ x ∈ subnodesOf ns, ¬ x.isComment) (hformed : ∀ x ∈ subnodesOf ns, x.WellFormed) :
    sourceOf (withoutCommentsOf pending ns).1 = pending ++ sourceOf ns ∧
      gapOf (withoutCommentsOf pending ns).1 = pending ++ gapOf ns ∧
      (withoutCommentsOf pending ns).2 = [] := by
  match ns with
  | [] => simp [withoutCommentsOf, sourceOf, gapOf, hpending]
  | n :: ns =>
      rw [List.forall_mem_cons] at hparts
      simp only [subnodesOf, List.mem_append] at hfree hformed
      obtain ⟨hsource, hgap, hrest⟩ := withoutComments_of_commentFree pending n hparts.1
        (fun x hx => hfree x (Or.inl hx)) (fun x hx => hformed x (Or.inl hx))
      obtain ⟨hsource', -, hrest'⟩ := withoutCommentsOf_of_commentFree [] ns (fun _ => rfl) hparts.2
        (fun x hx => hfree x (Or.inr hx)) (fun x hx => hformed x (Or.inr hx))
      -- The first node takes the pending blanks and leaves none over for the others.
      rw [withoutCommentsOf_cons (hfree n (Or.inl (self_mem_subnodes n))), hrest]
      refine ⟨?_, hgap, hrest'⟩
      rw [sourceOf, sourceOf, hsource, hsource', List.nil_append, List.append_assoc]

end

theorem text_withoutComments (hpart : n.kind ≠ .construct .program) (hfree : n.CommentFree)
    (hformed : ∀ x ∈ n.subnodes, x.WellFormed) (pending : List Char) :
    (n.withoutComments pending).1.text = n.text := by
  obtain ⟨hsource, hgap, -⟩ := withoutComments_of_commentFree pending n hpart hfree hformed
  rw [text, text, hsource, hgap, List.length_append, ← List.drop_drop, List.drop_left]

end Node

end EndpointAtlas.Syntax
