import EndpointAtlas.Proofs.Comments
import EndpointAtlas.Proofs.Leniency
import EndpointAtlas.Proofs.TypeNames

/-!
# Comments in accepted texts

Nothing that the grammar has a place for is a comment. So the comments of a tree without repairs are
extras: leaves without a role that stand first or last in no type. Taking them out asks for no more than
that, and a text declares the same with blanks for its comments.
-/

namespace EndpointAtlas

open Grammar Syntax

namespace Grammar

variable {c : Construct} {steps : List Step} {step : Step}

/-! ### What the grammar says of comments and of whole files -/

/-- The kind that a step is shown as unless its construct is hidden. -/
def Step.kind (step : Step) : Kind :=
  match step.symbol with
  | .terminal t => step.shown.getD (.terminal t)
  | .construct c => .construct c

theorem own_choices : ∀ c ∈ Construct.all, ∀ f ∈ forms c, ∀ p ∈ f.parts, ∀ s ∈ p.choices,
    s.kind ≠ .terminal .lineComment ∧ s.kind ≠ .terminal .blockComment ∧
      s.kind ≠ .construct .goal ∧ (c ≠ .goal → s.kind ≠ .construct .program) := by
  decide +kernel

theorem required_part : ∀ c ∈ Construct.all, c ≠ .program → ∀ f ∈ forms c,
    ∃ p ∈ f.parts, p.required := by
  decide +kernel

theorem unannotated_choices : ∀ f ∈ forms .unannotatedType, ∀ p ∈ f.parts, ∀ s ∈ p.choices,
    s.symbol.isShown ∧ (Node.leaf s.kind none [] [] false).isNamed := by
  decide +kernel

/-- No step stands for a comment, and only the goal has a step for a whole file. -/
theorem Construct.Allows.own (h : c.Allows steps) (hstep : step ∈ steps) :
    step.kind ≠ .terminal .lineComment ∧ step.kind ≠ .terminal .blockComment ∧
      step.kind ≠ .construct .goal ∧ (c ≠ .goal → step.kind ≠ .construct .program) := by
  obtain ⟨f, hf, p, hp, hchoice⟩ := h.exists_choice hstep
  exact own_choices c (Construct.mem_all c) f hf p hp step hchoice

theorem Form.ne_nil_of_required {ps : List Part} {p : Part} (hsteps : steps ∈ Form.sequences ps)
    (hp : p ∈ ps) (hrequired : p.required) : steps ≠ [] := by
  induction ps generalizing steps with
  | nil => cases hp
  | cons q ps ih =>
      obtain ⟨here, hhere, rest, hrest, rfl⟩ := Form.mem_sequences_cons_iff.1 hsteps
      rw [List.mem_cons] at hp
      obtain rfl | hp := hp
      · rw [Part.spellings, if_pos hrequired] at hhere
        obtain ⟨step, -, rfl⟩ := List.mem_map.1 hhere
        exact List.cons_ne_nil _ _
      · exact List.append_ne_nil_of_right_ne_nil _ (ih hrest hp)

theorem Construct.Allows.named_of_unannotated (h : Construct.unannotatedType.Allows steps)
    (hstep : step ∈ steps) :
    step.symbol.isShown ∧ (Node.leaf step.kind none [] [] false).isNamed := by
  obtain ⟨f, hf, p, hp, hchoice⟩ := h.exists_choice hstep
  exact unannotated_choices f hf p hp step hchoice

/-- Only a whole file may be empty. -/
theorem Construct.Allows.ne_nil (h : c.Allows steps) (hc : c ≠ .program) : steps ≠ [] := by
  obtain ⟨f, hf, hsteps⟩ := h
  obtain ⟨p, hp, hrequired⟩ := required_part c (Construct.mem_all c) hc f hf
  exact Form.ne_nil_of_required hsteps hp hrequired

end Grammar

namespace Syntax.Node

open Tree

variable {n m : Node} {t : Tree} {label : Label} {c : Construct} {steps : List Step} {step : Step}

/-! ### What the parts of a tree show as -/

theorem kind_giveRole (r : Option Role) (n : Node) : (giveRole r n).kind = n.kind := by
  unfold giveRole
  split
  · split <;> rfl
  · rfl
  · rfl

theorem isComment_giveRole (r : Option Role) (n : Node) : (giveRole r n).isComment = n.isComment := by
  rw [isComment, isComment, kind_giveRole]

theorem isComment_iff : n.isComment ↔
    n.kind = .terminal .lineComment ∨ n.kind = .terminal .blockComment := by
  rw [isComment, Bool.or_eq_true, beq_iff_eq, beq_iff_eq]

/-- A comment in a tree without repairs is an extra. -/
theorem isNote_of_isComment (ht : t.IsDerived) (hplaced : IsPlaced label t) (hn : n ∈ ofTree label t)
    (hcomment : n.isComment) : n.IsNote := by
  induction ht using Tree.IsDerived.induction generalizing label n with
  | @token kind gap text hspells =>
      rw [ofTree, List.mem_singleton] at hn
      subst hn
      rw [isComment_iff] at hcomment
      cases hplaced with
      | loose hrole hshown =>
          rw [hshown] at hcomment
          refine ⟨kind, gap, text, ?_, hspells, by rw [hshown, hrole]; rfl⟩
          exact hcomment.imp Kind.terminal.inj Kind.terminal.inj
      | @step _ _ step _ hallows hstep hsymbol =>
          cases step with
          | mk symbol role shown =>
          cases hsymbol
          obtain ⟨hline, hblock, -⟩ := hallows.own hstep
          exact absurd hcomment (not_or.2 ⟨hline, hblock⟩)
  | @node kind summary steps children _ hallows hfills _ _ ih =>
      rw [ofTree] at hn
      split at hn
      · obtain ⟨m, hm, rfl⟩ := List.mem_map.1 hn
        obtain ⟨child, hchild, hm⟩ := mem_ofTrees_iff.1 hm
        rw [isComment_giveRole] at hcomment
        have hnote := ih child hchild (hfills.isPlaced hallows child hchild) hm hcomment
        rwa [hnote.giveRole]
      · rw [List.mem_singleton] at hn
        subst hn
        rw [isComment_iff] at hcomment
        obtain h | h := hcomment <;> cases h

/-- No whole file is shown where a step of a rule stands. -/
theorem kind_ne_program (ht : t.IsDerived) (hallows : c.Allows steps) (hstep : step ∈ steps)
    (hc : c ≠ .goal) (hsymbol : t.symbol? = some step.symbol)
    (hn : n ∈ ofTree { role := step.role, shown := step.shown } t) : n.kind ≠ .construct .program := by
  induction ht using Tree.IsDerived.induction generalizing c steps step n with
  | token hspells =>
      cases step with
      | mk symbol role shown =>
      cases hsymbol
      rw [ofTree, List.mem_singleton] at hn
      subst hn
      exact (hallows.own hstep).2.2.2 hc
  | @node kind summary steps' children _ hallows' hfills _ hchildren ih =>
      cases step with
      | mk symbol role shown =>
      cases hsymbol
      obtain ⟨-, -, hgoal, hprogram⟩ := hallows.own hstep
      rw [ofTree] at hn
      split at hn
      · obtain ⟨m, hm, rfl⟩ := List.mem_map.1 hn
        obtain ⟨child, hchild, hm⟩ := mem_ofTrees_iff.1 hm
        rw [kind_giveRole]
        obtain ⟨hextra, hloose⟩ | ⟨step', hstep', hsymbol', hplace⟩ := hfills.cases_of_mem hchild
        · obtain ⟨u, gap, text, -, -, rfl⟩ := hloose.isNote hextra (hchildren child hchild) m hm
          exact nofun
        · rw [hplace] at hm
          refine ih child hchild hallows' hstep' ?_ hsymbol' hm
          rintro rfl
          exact hgoal rfl
      · rw [List.mem_singleton] at hn
        subst hn
        exact hprogram hc

theorem ofTrees_ne_nil {children : List (Label × Tree)} (hfills : Fills steps children)
    (hsteps : steps ≠ []) (hshown : ∀ child ∈ children, ofTree child.1 child.2 ≠ []) :
    ofTrees children ≠ [] := by
  have hne : children ≠ [] := by
    rintro rfl
    exact hsteps (List.length_eq_zero_iff.1 hfills.countP.symm)
  obtain ⟨child, hchild⟩ := List.exists_mem_of_ne_nil _ hne
  obtain ⟨n, hn⟩ := List.exists_mem_of_ne_nil _ (hshown child hchild)
  exact List.ne_nil_of_mem (mem_ofTrees_iff.2 ⟨child, hchild, hn⟩)

theorem ofTree_ne_nil (ht : t.IsDerived) (label : Label) : ofTree label t ≠ [] := by
  induction ht using Tree.IsDerived.induction generalizing label with
  | token => exact List.cons_ne_nil _ _
  | @node kind summary steps children _ hallows hfills _ _ ih =>
      rw [ofTree]
      split
      · next hhidden =>
        have hkind : kind ≠ .program := by
          rintro rfl
          cases hhidden
        have hne := ofTrees_ne_nil hfills (hallows.ne_nil hkind) fun child hchild => ih child hchild _
        exact fun hnil => hne (List.map_eq_nil_iff.1 hnil)
      · exact List.cons_ne_nil _ _

/-- A step whose symbol shows has a node of its kind. -/
theorem exists_of_isShown (ht : t.IsDerived) (hshown : step.symbol.isShown)
    (hsymbol : t.symbol? = some step.symbol) :
    ∃ n, ofTree { role := step.role, shown := step.shown } t = [n] ∧ n.kind = step.kind := by
  cases hx : step.symbol with
  | terminal u =>
      rw [hx] at hsymbol
      obtain ⟨gap, text, -, rfl⟩ := eq_token ht hsymbol
      exact ⟨_, rfl, by rw [Step.kind, hx]; rfl⟩
  | construct d =>
      rw [hx] at hsymbol hshown
      obtain ⟨broken, ns, hsingle⟩ := ofTree_of_shown hsymbol (by simpa [Symbol.isShown] using hshown)
        { role := step.role, shown := step.shown }
      exact ⟨_, hsingle, by rw [Step.kind, hx]; rfl⟩

/-! ### Trees without repairs are well formed -/

/-- What stands at the end of an annotated type is no comment. -/
theorem exists_unannotated (ht : t.IsDerived) (hneat : t.Neat)
    (hsymbol : t.symbol? = some (.construct .unannotatedType)) :
    ∃ n, ofTree {} t = [n] ∧ n.isNamed ∧ ¬ n.isComment := by
  cases ht using Tree.IsDerived.induction with
  | token => cases hsymbol
  | @node kind summary steps children _ hallows hfills hlast hchildren _ =>
      cases hsymbol
      obtain ⟨f, hf, hsteps⟩ := id hallows
      obtain ⟨step, hstep, rfl, -⟩ := unannotated_forms f hf steps hsteps
      obtain ⟨hshown, hnamed⟩ := hallows.named_of_unannotated hstep
      cases hneat with
      | node hfirst hneat =>
      obtain ⟨u, rfl, hu⟩ := hfills.exists_single hfirst hlast
      rw [List.forall_mem_singleton] at hchildren
      obtain ⟨n, hn, hkind⟩ := exists_of_isShown hchildren hshown hu
      obtain ⟨hline, hblock, -⟩ := hallows.own hstep
      refine ⟨n, by rw [ofTree_of_hidden rfl, ofTrees_singleton, hn], ?_, ?_⟩
      · rw [isNamed, hkind]
        exact hnamed
      · rw [isComment_iff, hkind]
        exact not_or.2 ⟨hline, hblock⟩

theorem IsNamed.not_isComment (h : n.IsNamed) : ¬ n.isComment := by
  cases h <;> exact Bool.false_ne_true

namespace IsDerived

theorem parts (h : n.IsDerived) (hnone : n.children = []) :
    n.isLeaf ∨ n.kind = .construct .program := by
  cases h with
  | leaf => exact .inl rfl
  | @branch c role broken summary children _ htree _ =>
      refine .inr (congrArg Kind.construct (by_contra fun hc => ?_))
      obtain ⟨steps, hallows, hfills, -, hchildren⟩ := htree.exists_steps
      exact ofTrees_ne_nil hfills (hallows.ne_nil hc)
        (fun child hchild => ofTree_ne_nil (hchildren child hchild) _) hnone

theorem inner (h : n.IsDerived) (hm : m ∈ n.children) : m.kind ≠ .construct .program := by
  have hgoal : n.kind ≠ .construct .goal := by
    cases h with
    | leaf => cases hm
    | branch hshown _ _ =>
        intro hkind
        cases hkind
        cases hshown
  obtain hnote | ⟨c, steps, step, t, hc, hallows, hstep, ht, -, hsymbol, hmem⟩ := h.cases_of_mem hm
  · obtain ⟨u, gap, text, -, -, rfl⟩ := hnote
    exact nofun
  · refine kind_ne_program ht hallows hstep (fun hkind => hgoal ?_) hsymbol hmem
    rw [hc, hkind]

/-- A generic type begins with a name. -/
theorem applied (h : n.IsDerived) (hkind : n.kind = .construct .genericType) :
    ∀ c ∈ n.children.find? (·.isNamed), ¬ c.isComment := by
  cases h with
  | leaf => exact nofun
  | @branch c role broken summary children _ htree hneat =>
      cases hkind
      obtain ⟨steps, ⟨f, hf, hsteps⟩, hfills, -, hchildren⟩ := htree.exists_steps
      obtain ⟨base, hbase, rfl⟩ := generic_forms f hf steps hsteps
      cases hneat with
      | node hfirst hneat =>
      obtain ⟨u, rest, rfl, hu, -⟩ := hfills.exists_head hfirst
      rw [List.forall_mem_cons] at hchildren hneat
      obtain ⟨m, hm, hnamed⟩ := hchildren.1.exists_isNamed hneat.1 hbase hu
      intro c hc
      rw [Node.children, ofTrees, ofChild, hm, List.singleton_append,
        List.find?_cons_of_pos (isNamed_of_isNamed hnamed)] at hc
      obtain rfl := Option.some.inj hc
      exact hnamed.not_isComment

/-- An annotated type ends with a type. -/
theorem annotated (h : n.IsDerived) (hkind : n.kind = .construct .annotatedType) :
    ∀ c ∈ (n.children.filter (·.isNamed)).getLast?, ¬ c.isComment := by
  cases h with
  | leaf => exact nofun
  | @branch c role broken summary children _ htree hneat =>
      cases hkind
      obtain ⟨steps, ⟨f, hf, hsteps⟩, hfills, hlast, hchildren⟩ := htree.exists_steps
      rw [annotatedType_forms f hf steps hsteps] at hfills
      obtain ⟨before, u, rfl, hu, -⟩ := hfills.exists_last hlast
      have hneat := hneat.of_mem (List.mem_append_right before List.mem_cons_self)
      rw [List.forall_mem_append, List.forall_mem_singleton] at hchildren
      obtain ⟨m, hm, hnamed, hplain⟩ := exists_unannotated hchildren.2 hneat hu
      intro c hc
      rw [Node.children, ofTrees_append, ofTrees_singleton, hm, List.filter_append,
        List.filter_cons_of_pos hnamed, List.filter_nil, List.getLast?_concat] at hc
      obtain rfl := Option.some.inj hc
      exact hplain

end IsDerived

theorem IsPart.wellFormed (h : n.IsPart) : n.WellFormed where
  comment hcomment := by
    obtain ⟨label, t, hplaced, ht, -, hn⟩ := h
    obtain ⟨u, gap, text, -, -, rfl⟩ := isNote_of_isComment ht hplaced hn hcomment
    exact ⟨rfl, rfl⟩
  parts := h.isDerived.parts
  inner _ := h.isDerived.inner
  applied := h.isDerived.applied
  annotated := h.isDerived.annotated

theorem IsPart.wellFormed_subnodes (h : n.IsPart) : ∀ x ∈ n.subnodes, x.WellFormed := by
  induction n using children_induction with
  | step n ih =>
  intro x hx
  obtain rfl | ⟨c, hc, hx⟩ := mem_subnodes_iff.1 hx
  · exact h.wellFormed
  · exact ih c hc (h.isDerived.isPart hc) x hx

/-- All nodes below the root of a tree without repairs are well formed. -/
theorem wellFormed_of_isWhole (ht : t.IsWhole) (hroot : (ofRoot t).isBroken = false) :
    ∀ x ∈ subnodesOf (ofRoot t).children, x.WellFormed := by
  intro x hx
  obtain ⟨c, hc, hx⟩ := mem_subnodesOf_iff.1 hx
  exact (isPart_of_isWhole ht hroot c hc).wellFormed_subnodes x hx

end Syntax.Node

/-! ### Accepted texts -/

namespace SourceUnit

open Node

/-- A text that is accepted is all in its tree, and the tree without the comments has the text with a
space for each of them. If that is how this text is read, it is accepted as well. It declares the same
then, unless a comment stands in a node that something declared is spelled in. -/
theorem ofText_blanked {text : List Char} {u : SourceUnit} (hread : ofText false text = .ok u) :
    let root := Node.ofRoot (Syntax.parse text)
    root.source = text ∧
      (root.withoutComments []).1.source ++ (root.withoutComments []).2 = root.blanked ∧
      (Node.ofRoot (Syntax.parse root.blanked) = (root.withoutComments []).1 →
        ∃ v, ofText false root.blanked = .ok v ∧ (Spared root → v = u)) := by
  intro root
  refine ⟨?_, ?_, fun hextras => ?_⟩
  · rw [source_ofRoot, source_parse]
  · rw [source_withoutComments, List.nil_append]
  have hbroken : (root.withoutComments []).1.isBroken = root.isBroken := by
    cases root <;> rfl
  rw [ofText, ofRoot] at hread
  split at hread
  · cases hread
  next hunbroken =>
  have hclean : root.isBroken = false := by simpa using hunbroken
  refine ⟨ofNode (root.withoutComments []).1, ?_, fun hspared => ?_⟩
  · rw [ofText, hextras, ofRoot, hbroken, hclean]
    rfl
  · rw [ofNode_withoutComments (wellFormed_of_isWhole (isWhole_parse text) hclean) hspared]
    exact Except.ok.inj hread

set_option maxRecDepth 100000 in
theorem ofText_commented :
    let text := "@M/**/class C implements/**/I{A/**/f(B/**/...b){}}".toList
    let root := Node.ofRoot (Syntax.parse text)
    ofText false text = .ok ⟨none, [⟨"C", .classType, [⟨"M"⟩],
        [⟨"f", "A", [⟨"b", "B"⟩], []⟩], [⟨none, "I"⟩]⟩]⟩ ∧
      root.blanked = "@M class C implements I{A f(B ...b){}}".toList ∧
      Node.ofRoot (Syntax.parse root.blanked) = (root.withoutComments []).1 ∧ Spared root := by
  decide +kernel

/-- Comments behind an annotation, a word and two types. -/
theorem ofText_blanked_between_parts :
    let text := "@M/**/class C implements/**/I{A/**/f(B/**/...b){}}".toList
    let u : SourceUnit := ⟨none, [⟨"C", .classType, [⟨"M"⟩],
      [⟨"f", "A", [⟨"b", "B"⟩], []⟩], [⟨none, "I"⟩]⟩]⟩
    ofText false text = .ok u ∧
      ofText false "@M class C implements I{A f(B ...b){}}".toList = .ok u := by
  intro text u
  obtain ⟨hread, hblanked, hextras, hspared⟩ := ofText_commented
  obtain ⟨v, hv, hsame⟩ := (ofText_blanked hread).2.2 hextras
  rw [hsame hspared, hblanked] at hv
  exact ⟨hread, hv⟩

set_option maxRecDepth 100000 in
/-- Between the modifiers and the type a comment is taken for the type. -/
theorem ofText_comment_before_type :
    let text := "class C { void tag(final /* c */ String... tags) {} }".toList
    let root := Node.ofRoot (Syntax.parse text)
    let unit (type : String) : SourceUnit :=
      ⟨none, [⟨"C", .classType, [], [⟨"tag", "void", [⟨"tags", type⟩], []⟩], []⟩]⟩
    ofText false text = .ok (unit "/* c */") ∧
      root.blanked = "class C { void tag(final   String... tags) {} }".toList ∧
      Node.ofRoot (Syntax.parse root.blanked) = (root.withoutComments []).1 ∧
      ofText false root.blanked = .ok (unit "String") := by
  decide +kernel

end SourceUnit

end EndpointAtlas
