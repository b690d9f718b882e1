import EndpointAtlas.Proofs.FirmSymbols
import EndpointAtlas.Proofs.SoundTrees
import EndpointAtlas.Syntax.Node
import Mathlib.Data.List.Basic

/-!
# Nodes with a firm end

The text of a node ends as its last token does. So a tree without repairs whose symbol has a firm end
shows as nodes with a firm end, with comments between them. Whatever stands as a name or as a type is
such a node.
-/

namespace EndpointAtlas.Syntax

open Grammar Text

namespace Node

variable {n m : Node} {ns ms : List Node} {r : Option Role}

/-! ### The text of a node -/

mutual

theorem exists_source_eq (n : Node) : ∃ rest, n.source = n.gap ++ rest := by
  match n with
  | leaf _ _ gap text _ => exact ⟨text, rfl⟩
  | branch _ _ _ ns => exact exists_sourceOf_eq ns

theorem exists_sourceOf_eq (ns : List Node) : ∃ rest, sourceOf ns = gapOf ns ++ rest := by
  match ns with
  | [] => exact ⟨[], rfl⟩
  | n :: ns =>
      obtain ⟨rest, hrest⟩ := exists_source_eq n
      exact ⟨rest ++ sourceOf ns, by rw [sourceOf, gapOf, hrest, List.append_assoc]⟩

end

theorem source_eq (n : Node) : n.source = n.gap ++ n.text := by
  obtain ⟨rest, hrest⟩ := exists_source_eq n
  rw [text, hrest, List.drop_left]

theorem text_leaf (kind : Kind) (role : Option Role) (gap text : List Char) (missing : Bool) :
    (leaf kind role gap text missing).text = text := List.drop_left

theorem sourceOf_append : sourceOf (ns ++ ms) = sourceOf ns ++ sourceOf ms := by
  induction ns with
  | nil => rfl
  | cons n ns ih => rw [List.cons_append, sourceOf, sourceOf, ih, List.append_assoc]

theorem sourceOf_singleton (n : Node) : sourceOf [n] = n.source := List.append_nil _

/-- A node ends as its last child does. -/
theorem endsFirm_branch (h : ns.getLast? = some n) (hn : EndsFirm n.text) (kind : Kind)
    (role : Option Role) (broken : Bool) : EndsFirm (branch kind role broken ns).text := by
  obtain ⟨before, rfl⟩ := List.getLast?_eq_some_iff.1 h
  cases before with
  | nil =>
      have htext : (branch kind role broken ([] ++ [n])).text = n.text := by
        rw [text, source, List.nil_append, sourceOf_singleton]
        rfl
      rwa [htext]
  | cons m before =>
      have htext : (branch kind role broken (m :: before ++ [n])).text =
          (m.text ++ sourceOf before ++ n.gap) ++ n.text := by
        calc (branch kind role broken (m :: before ++ [n])).text
            = (m.gap ++ (m.text ++ sourceOf before ++ n.gap ++ n.text)).drop m.gap.length := by
              rw [text, source, sourceOf_append, sourceOf, sourceOf_singleton, source_eq m, source_eq n]
              simp only [List.append_assoc]
              rfl
          _ = (m.text ++ sourceOf before ++ n.gap) ++ n.text := List.drop_left
      rw [htext]
      exact hn.append_left _

/-! ### Roles given to nodes -/

theorem source_giveRole (r : Option Role) (n : Node) : (giveRole r n).source = n.source := by
  unfold giveRole
  split
  · split <;> rfl
  · rfl
  · rfl

theorem gap_giveRole (r : Option Role) (n : Node) : (giveRole r n).gap = n.gap := by
  unfold giveRole
  split
  · split <;> rfl
  · rfl
  · rfl

theorem text_giveRole (r : Option Role) (n : Node) : (giveRole r n).text = n.text := by
  rw [text, text, source_giveRole, gap_giveRole]

/-- A role is given to a node that has none. -/
theorem role_giveRole (r : Option Role) (n : Node) :
    giveRole r n = n ∨ (giveRole r n).role = r := by
  unfold giveRole
  split
  · split
    · exact .inl rfl
    · exact .inr rfl
  · exact .inr rfl
  · exact .inl rfl

/-- A comment as it stands in a tree without repairs. -/
def IsNote (n : Node) : Prop :=
  ∃ t gap text, (t = .lineComment ∨ t = .blockComment) ∧ Terminal.Spells t text ∧
    n = leaf (.terminal t) none gap text false

theorem IsNote.role (h : IsNote n) : n.role = none := by
  obtain ⟨t, gap, text, -, -, rfl⟩ := h
  rfl

theorem IsNote.giveRole (h : IsNote n) (r : Option Role) : giveRole r n = n := by
  obtain ⟨t, gap, text, rfl | rfl, -, rfl⟩ := h <;> rfl

theorem IsNote.exists_mem (h : IsNote n) : ∃ c ∈ n.text, isWhitespace c = false := by
  obtain ⟨t, gap, text, ht, hspells, rfl⟩ := h
  rw [text_leaf]
  exact ⟨'/', List.mem_of_head? (hspells.comment ht), by decide⟩

/-! ### Nodes of a tree -/

theorem ofTrees_append (before after : List (Label × Tree)) :
    ofTrees (before ++ after) = ofTrees before ++ ofTrees after := by
  induction before with
  | nil => rfl
  | cons child before ih => rw [List.cons_append, ofTrees, ofTrees, ih, List.append_assoc]

theorem ofTrees_singleton (label : Label) (t : Tree) : ofTrees [(label, t)] = ofTree label t := by
  rw [ofTrees, ofTrees, List.append_nil, ofChild]

theorem ofChild_eq (child : Label × Tree) : ofChild child = ofTree child.1 child.2 := by
  rw [ofChild]

theorem mem_ofTrees_iff {children : List (Label × Tree)} :
    n ∈ ofTrees children ↔ ∃ child ∈ children, n ∈ ofTree child.1 child.2 := by
  induction children with
  | nil => simp [ofTrees]
  | cons child children ih => simp [ofTrees, ofChild_eq, ih]

theorem sourceOf_map_giveRole (r : Option Role) (ns : List Node) :
    sourceOf (ns.map (giveRole r)) = sourceOf ns := by
  induction ns with
  | nil => rfl
  | cons n ns ih => rw [List.map_cons, sourceOf, sourceOf, source_giveRole, ih]

mutual

/-- The nodes of a tree have the text that its lexemes make up. -/
theorem sourceOf_ofTree (label : Label) (t : Tree) :
    sourceOf (ofTree label t) = Lexeme.source t.lexemes := by
  match t with
  | .token _ _ _ | .missing _ | .stray _ _ =>
      simp [ofTree, sourceOf, source, Tree.lexemes, Lexeme.source]
  | .node c _ children =>
      rw [ofTree, Tree.lexemes, ← sourceOf_ofTrees children]
      split
      · exact sourceOf_map_giveRole _ _
      · exact sourceOf_singleton _
  | .skipped isOpen _ children =>
      rw [ofTree, Tree.lexemes, ← sourceOf_ofTrees children]
      split
      · exact sourceOf_map_giveRole _ _
      · exact sourceOf_singleton _

theorem sourceOf_ofTrees (children : List (Label × Tree)) :
    sourceOf (ofTrees children) = Lexeme.source (Tree.lexemesOf children) := by
  match children with
  | [] => rfl
  | (label, t) :: rest =>
      rw [ofTrees, ofChild, sourceOf_append, sourceOf_ofTree label t, sourceOf_ofTrees rest]
      exact (Tree.sourceOf_cons (label, t) rest).symm

end

/-- The root has all of the text of its tree. -/
theorem source_ofRoot (t : Tree) : (ofRoot t).source = t.source := by
  have hsource := sourceOf_ofTree {} t
  rw [ofRoot]
  split
  · next n hsingle =>
    rw [hsingle, sourceOf_singleton] at hsource
    exact hsource
  · exact hsource

end Node

/-! ### Trees without repairs -/

namespace Tree

variable {t : Tree} {label : Label} {n : Node}

def IsFirm (t : Tree) : Prop := ∃ x, t.symbol? = some x ∧ x.isFirm

/-- A sound tree without repairs. -/
structure IsDerived (t : Tree) : Prop where
  sound : Sound t
  clean : t.hasRepair = false

theorem hasRepair_of_mem {summary : Summary} {children : List (Label × Tree)}
    (hsummary : summary.repaired = children.any fun child => child.2.hasRepair)
    (hclean : summary.repaired = false) : ∀ child ∈ children, child.2.hasRepair = false := by
  rw [hsummary, List.any_eq_false] at hclean
  exact fun child hchild => Bool.eq_false_iff.2 (hclean child hchild)

/-- Without repairs there are only tokens and rules. -/
theorem IsDerived.induction {motive : (t : Tree) → t.IsDerived → Prop}
    (token : ∀ {kind : Terminal} {gap text : List Char} (hspells : kind.Spells text),
      motive (token kind gap text) ⟨.token hspells, rfl⟩)
    (node : ∀ {kind : Construct} {summary : Summary} {steps : List Step}
      {children : List (Label × Tree)} (h : (node kind summary children).IsDerived),
      kind.Allows steps → Fills steps children → (∀ last ∈ children.getLast?, isOwn last) →
      (hchildren : ∀ child ∈ children, child.2.IsDerived) →
      (∀ child (hchild : child ∈ children), motive child.2 (hchildren child hchild)) →
      motive (node kind summary children) h)
    (h : t.IsDerived) : motive t h := by
  obtain ⟨hsound, hclean⟩ := h
  induction hsound with
  | token hspells => exact token hspells
  | missing _ => cases hclean
  | stray _ _ => cases hclean
  | node hsummary hallows hfills hlast hchildren ih =>
      have hcleanChild := hasRepair_of_mem hsummary.repaired hclean
      exact node _ hallows hfills hlast
        (fun child hchild => ⟨hchildren child hchild, hcleanChild child hchild⟩)
        fun child hchild => ih child hchild (hcleanChild child hchild)
  | skipped hsummary => exact absurd hsummary.repaired (Bool.eq_false_iff.1 hclean)

theorem IsDerived.exists_steps {kind : Construct} {summary : Summary}
    {children : List (Label × Tree)} (h : (node kind summary children).IsDerived) : ∃ steps,
      kind.Allows steps ∧ Fills steps children ∧ (∀ last ∈ children.getLast?, isOwn last) ∧
      ∀ child ∈ children, child.2.IsDerived := by
  obtain ⟨hsound, hclean⟩ := h
  cases hsound with
  | @node _ _ steps _ hsummary hallows hfills hlast hchildren =>
      have hcleanChild := hasRepair_of_mem hsummary.repaired hclean
      exact ⟨steps, hallows, hfills, hlast,
        fun child hchild => ⟨hchildren child hchild, hcleanChild child hchild⟩⟩

/-- What no rule has a place for shows as a comment. -/
theorem IsLoose.isNote (hloose : IsLoose label t) (hextra : label.extra) (ht : t.IsDerived) :
    ∀ n ∈ Node.ofTree label t, n.IsNote := by
  obtain hcomment | hrepair := hloose.extra hextra
  · cases ht.sound with
    | @token u gap text hspells =>
        intro n hn
        rw [Node.ofTree, List.mem_singleton, hloose.shown, hloose.role] at hn
        exact ⟨u, gap, text, hcomment, hspells, hn⟩
    | _ => cases hcomment
  · rw [ht.clean] at hrepair
    cases hrepair

/-! ### Firm trees -/

/-- The last node that a firm tree shows as has a firm end. -/
theorem exists_getLast?_ofTree (h : t.IsDerived) (hfirm : t.IsFirm) (label : Label) :
    ∃ n, (Node.ofTree label t).getLast? = some n ∧ EndsFirm n.text := by
  obtain ⟨x, hx, hfirm⟩ := hfirm
  induction h using IsDerived.induction generalizing label x with
  | token hspells =>
      cases hx
      refine ⟨_, by rw [Node.ofTree, List.getLast?_singleton], ?_⟩
      rw [Node.text_leaf]
      exact hspells.endsFirm hfirm
  | @node kind summary steps children _ hallows hfills hlast _ ih =>
      cases hx
      obtain ⟨init, step, rfl, hstep⟩ := hallows.exists_concat hfirm
      obtain ⟨before, u, rfl, hsymbol, -⟩ := hfills.exists_last hlast
      obtain ⟨n, hn, hend⟩ := ih _ (List.mem_append_right _ List.mem_cons_self) _ _ hsymbol hstep
      have hlastNode : (Node.ofTrees (before ++
          [({ role := step.role, shown := step.shown }, u)])).getLast? = some n := by
        rw [Node.ofTrees_append, Node.ofTrees_singleton, List.getLast?_append, hn, Option.some_or]
      rw [Node.ofTree]
      split
      · refine ⟨_, by rw [List.getLast?_map, hlastNode, Option.map_some], ?_⟩
        rwa [Node.text_giveRole]
      · exact ⟨_, List.getLast?_singleton, Node.endsFirm_branch hlastNode hend _ _ _⟩

theorem endsFirm_of_eq_singleton (h : t.IsDerived) (hfirm : t.IsFirm)
    (hsingle : Node.ofTree label t = [n]) : EndsFirm n.text := by
  obtain ⟨last, hlast, hend⟩ := exists_getLast?_ofTree h hfirm label
  rw [hsingle, List.getLast?_singleton, Option.some_inj] at hlast
  rwa [hlast]

/-- All nodes that a firm tree shows as have a firm end, but for comments. -/
theorem isNote_or_endsFirm (h : t.IsDerived) (hfirm : t.IsFirm) (hn : n ∈ Node.ofTree label t) :
    n.IsNote ∨ EndsFirm n.text := by
  induction h using IsDerived.induction generalizing label n with
  | token hspells =>
      rw [Node.ofTree, List.mem_singleton] at hn
      exact .inr (endsFirm_of_eq_singleton ⟨.token hspells, rfl⟩ hfirm (by rw [Node.ofTree, hn]))
  | @node kind summary steps children h hallows hfills _ hchildren ih =>
      rw [Node.ofTree] at hn
      split at hn
      · next hhidden =>
        obtain ⟨m, hm, rfl⟩ := List.mem_map.1 hn
        obtain ⟨child, hchild, hm⟩ := Node.mem_ofTrees_iff.1 hm
        have hnote_or : m.IsNote ∨ EndsFirm m.text := by
          obtain ⟨hextra, hloose⟩ | ⟨step, hstep, hsymbol, -⟩ := hfills.cases_of_mem hchild
          · exact .inl (hloose.isNote hextra (hchildren child hchild) m hm)
          · obtain ⟨x, hx, hfirm⟩ := hfirm
            cases hx
            exact ih child hchild ⟨_, hsymbol, hallows.isFirm_of_hidden hfirm hhidden hstep⟩ hm
        rw [Node.text_giveRole]
        refine hnote_or.imp_left fun hnote => ?_
        rwa [Node.IsNote.giveRole hnote]
      · next hshown =>
        rw [List.mem_singleton] at hn
        exact .inr (endsFirm_of_eq_singleton h hfirm (by rw [Node.ofTree, if_neg hshown, hn]))

/-! ### Names and types -/

theorem endsFirm_of_isFirm (h : t.IsDerived) (hfirm : t.IsFirm) (hn : n ∈ Node.ofTree label t)
    {r : Role} (hrole : n.role = some r) : EndsFirm n.text := by
  refine (isNote_or_endsFirm h hfirm hn).resolve_left fun hnote => ?_
  rw [hnote.role] at hrole
  cases hrole

/-- A node with a role shows in place of a step that has the role, unless the whole tree has it. -/
theorem role_or_exists_step (h : t.IsDerived) (hneat : t.Neat) (hn : n ∈ Node.ofTree label t)
    {r : Role} (hrole : n.role = some r) : label.role = some r ∨
      ∃ (c : Construct) (steps : List Step) (step : Step) (u : Tree), c.Allows steps ∧ step ∈ steps ∧
        step.role = some r ∧ u.IsDerived ∧ u.Neat ∧ u.symbol? = some step.symbol ∧
        n ∈ Node.ofTree { role := step.role, shown := step.shown } u := by
  induction h using IsDerived.induction generalizing label n with
  | token hspells =>
      rw [Node.ofTree, List.mem_singleton] at hn
      rw [hn] at hrole
      exact .inl hrole
  | @node kind summary steps children h hallows hfills _ hchildren ih =>
      rw [Node.ofTree] at hn
      split at hn
      · obtain ⟨m, hm, rfl⟩ := List.mem_map.1 hn
        obtain hsame | hgiven := Node.role_giveRole label.role m
        · obtain ⟨child, hchild, hm⟩ := Node.mem_ofTrees_iff.1 hm
          rw [hsame] at hrole ⊢
          obtain ⟨hextra, hloose⟩ | ⟨step, hstep, hsymbol, hplace⟩ := hfills.cases_of_mem hchild
          · have hnote := hloose.isNote hextra (hchildren child hchild) m hm
            rw [hnote.role] at hrole
            cases hrole
          · have hneatChild := hneat.of_mem hchild
            refine .inr ((ih child hchild hneatChild hm hrole).elim (fun hown => ?_) id)
            rw [hplace] at hm hown
            exact ⟨kind, steps, step, child.2, hallows, hstep, hown, hchildren child hchild, hneatChild,
              hsymbol, hm⟩
        · exact .inl (hgiven.symm.trans hrole)
      · rw [List.mem_singleton] at hn
        rw [hn] at hrole
        exact .inl hrole

end Tree

end EndpointAtlas.Syntax
