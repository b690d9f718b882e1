import EndpointAtlas.Proofs.DerivedNodes
import EndpointAtlas.Proofs.Erasure
import EndpointAtlas.Proofs.TypeLexemes

/-!
# The brackets of a type

Only type arguments have angle brackets in a type without annotations and comments, one at each end, so
that the brackets in all of its text match. What an annotation or a comment says can have any brackets.
-/

namespace EndpointAtlas

open Grammar Text

/-! ### Texts put together -/

namespace TypeReference

variable {u v cs : List Char}

theorem isBalanced_of_plain (h : ∀ c ∈ cs, c ≠ '<' ∧ c ≠ '>') : IsBalanced cs where
  opened before hbefore := by
    rw [List.count_eq_zero_of_not_mem fun hc => (h _ (hbefore.subset hc)).2 rfl]
    exact Nat.zero_le _
  closed := by
    rw [List.count_eq_zero_of_not_mem fun hc => (h _ hc).1 rfl,
      List.count_eq_zero_of_not_mem fun hc => (h _ hc).2 rfl]

theorem IsBalanced.append (hu : IsBalanced u) (hv : IsBalanced v) : IsBalanced (u ++ v) where
  opened before hbefore := by
    obtain hbefore | ⟨w, rfl⟩ := List.prefix_or_prefix_of_prefix hbefore (List.prefix_append u v)
    · exact hu.opened before hbefore
    · have hw := hv.opened w ((List.prefix_append_right_inj u).1 hbefore)
      have hclosed := hu.closed
      simp only [List.count_append]
      omega
  closed := by rw [List.count_append, List.count_append, hu.closed, hv.closed]

theorem IsBalanced.group (h : IsBalanced u) : IsBalanced ('<' :: u ++ ['>']) where
  opened before hbefore := by
    obtain rfl | hbefore := List.prefix_concat_iff.1 hbefore
    · simp [h.closed]
    · obtain rfl | ⟨w, rfl, hw⟩ := List.prefix_cons_iff.1 hbefore
      · simp
      · have hopened := h.opened w hw
        simp only [List.count_cons, beq_iff_eq, if_true, Char.reduceEq, if_false]
        omega
  closed := by simp [h.closed]

end TypeReference

/-! ### What the grammar says of brackets -/

namespace Grammar

variable {t : Terminal} {text : List Char} {c : Construct} {steps : List Step}

def Symbol.isBracket (x : Symbol) : Bool := x == .terminal .less || x == .terminal .greater

theorem spelling?_plain : ∀ t ∈ Terminal.all, t.isTypeWord || t.isTypeMark →
    Symbol.isBracket (.terminal t) = false → t = .identifier ∨
      ∃ s ∈ t.spelling?, s.toList.all fun c => c != '<' && c != '>' := by
  decide +kernel

theorem unbracketed_forms : ∀ c ∈ Construct.all, c.isType → c ≠ .typeArguments → ∀ f ∈ forms c,
    ∀ steps ∈ Form.sequences f.parts, ∀ step ∈ steps, step.symbol.isBracket = false := by
  decide +kernel

theorem arguments_forms : ∀ f ∈ forms .typeArguments, ∀ steps ∈ Form.sequences f.parts,
    ∃ mid ∈ [steps.tail.dropLast], (∀ step ∈ mid, step.symbol.isBracket = false) ∧
      steps = ⟨.terminal .less, none, none⟩ :: mid ++ [⟨.terminal .greater, none, none⟩] := by
  decide

end Grammar

namespace Syntax.Tree

open TypeReference Node

variable {t : Tree} {x : Symbol} {steps : List Step} {children : List (Label × Tree)}
  {summary : Summary} {ls : List Lexeme} {l : Lexeme} {gap text : List Char} {kind : Terminal} {c : Char}
  {n : Node}

/-! ### Brackets between lexemes -/

theorem ne_of_mem_gap (h : Lexeme.IsGap gap) (hc : c ∈ gap) : c ≠ '<' ∧ c ≠ '>' ∧ c ≠ '@' ∧ c ≠ '/' := by
  obtain hblank | rfl := h c hc
  · refine ⟨?_, ?_, ?_, ?_⟩ <;> rintro rfl <;> cases hblank
  · decide

theorem isBalanced_gap (h : Lexeme.IsGap gap) : IsBalanced gap :=
  isBalanced_of_plain fun _ hc => ⟨(ne_of_mem_gap h hc).1, (ne_of_mem_gap h hc).2.1⟩

theorem isBalanced_text (h : kind.Spells text) (htype : kind.isTypeWord || kind.isTypeMark)
    (hbracket : Symbol.isBracket (.terminal kind) = false) : IsBalanced text := by
  refine isBalanced_of_plain fun c hc => ?_
  obtain hidentifier | ⟨s, hs, hplain⟩ := spelling?_plain kind (Terminal.mem_all kind) htype hbracket
  · have hpart := (h.identifier hidentifier).2 c hc
    constructor <;> rintro rfl <;> exact absurd hpart (by decide)
  · simpa using List.all_eq_true.1 hplain c (h.spelled s hs ▸ hc)

theorem isBalanced_lexemesOf (h : ∀ child ∈ children, IsBalanced (Lexeme.source child.2.lexemes)) :
    IsBalanced (Lexeme.source (lexemesOf children)) := by
  induction children with
  | nil => exact isBalanced_of_plain (List.forall_mem_nil _)
  | cons child children ih =>
      rw [List.forall_mem_cons] at h
      rw [lexemesOf, lexemesOfChild, Lexeme.source, List.flatMap_append]
      exact h.1.append (ih h.2)

/-- The brackets match between children that stand for symbols where they do. -/
theorem isBalanced_of_fills (hfills : Fills steps children) (hown : ∀ child ∈ children, isOwn child)
    (h : ∀ child ∈ children, ∀ step ∈ steps, child.2.symbol? = some step.symbol →
      IsBalanced (Lexeme.source child.2.lexemes)) : IsBalanced (Lexeme.source (lexemesOf children)) := by
  refine isBalanced_lexemesOf fun child hchild => ?_
  obtain ⟨hextra, -⟩ | ⟨step, hstep, hsymbol, -⟩ := hfills.cases_of_mem hchild
  · have hchildOwn := hown child hchild
    simp [isOwn, hextra] at hchildOwn
  · exact h child hchild step hstep hsymbol

def opening (gap : List Char) : Label × Tree := ({}, token .less gap ['<'])

def closing (gap : List Char) : Label × Tree := ({}, token .greater gap ['>'])

theorem source_group (gap gap' : List Char) (between : List (Label × Tree)) :
    Lexeme.source (lexemesOf (opening gap :: between ++ [closing gap'])) =
      gap ++ ('<' :: (Lexeme.source (lexemesOf between) ++ gap') ++ ['>']) := by
  rw [lexemesOf_eq, lexemesOf_eq]
  simp [lexemes, Lexeme.source, opening, closing]

/-- Type arguments have a bracket at each end and none of their own between. -/
theorem exists_group (hallows : Construct.typeArguments.Allows steps) (hfills : Fills steps children)
    (hlast : ∀ last ∈ children.getLast?, isOwn last)
    (hderived : ∀ child ∈ children, child.2.IsDerived)
    (hneat : (node .typeArguments summary children).Neat) :
    ∃ gap between gap' mid, children = opening gap :: between ++ [closing gap'] ∧
      Lexeme.IsGap gap ∧ Lexeme.IsGap gap' ∧ Fills mid between ∧
      ∀ step ∈ mid, step ∈ steps ∧ step.symbol.isBracket = false := by
  obtain ⟨f, hf, hsteps⟩ := hallows
  obtain ⟨mid, -, hplain, rfl⟩ := arguments_forms f hf steps hsteps
  cases hneat with
  | node hfirst hneat =>
  obtain ⟨less, between, greater, rfl, hless, hbetween, hgreater⟩ := hfills.exists_ends hfirst hlast
  simp only [List.forall_mem_append, List.forall_mem_cons] at hderived hneat
  obtain ⟨gap, text, hspells, rfl⟩ := eq_token hderived.1.1 hless
  obtain rfl : text = ['<'] := hspells.spelled _ rfl
  obtain ⟨gap', text', hspells', rfl⟩ := eq_token hderived.2.1 hgreater
  obtain rfl : text' = ['>'] := hspells'.spelled _ rfl
  cases hneat.1.1 with
  | token hgap =>
  cases hneat.2.1 with
  | token hgap' =>
  exact ⟨gap, between, gap', mid, rfl, hgap, hgap', hbetween, fun step hstep =>
    ⟨List.mem_append_left _ (List.mem_cons_of_mem _ hstep), hplain step hstep⟩⟩

/-- The brackets of a part of a type match if it is no bracket itself. -/
theorem IsDerived.isBalanced (h : t.IsDerived) (hneat : t.Neat) (hsymbol : t.symbol? = some x)
    (hx : x.isType) (hbracket : x.isBracket = false) (hbare : t.IsBare) :
    IsBalanced (Lexeme.source t.lexemes) := by
  induction h using IsDerived.induction generalizing x with
  | @token kind gap text hspells =>
      cases hsymbol
      cases hneat with
      | token hgap =>
      rw [lexemes, Lexeme.source, List.flatMap_singleton]
      exact (isBalanced_gap hgap).append (isBalanced_text hspells hx hbracket)
  | @node kind summary steps children _ hallows hfills hlast hchildren ih =>
      cases hsymbol
      have hbareChild : ∀ child ∈ children, child.2.IsBare := fun _ => isBare_of_mem hbare
      have hmade := isMadeOf_of_isBare hallows hfills hchildren hx hbare
      have hown := hfills.isOwn_of_isBare hchildren hbareChild
      have hinner (child : Label × Tree) (hchild : child ∈ children) (step : Step) (hstep : step ∈ steps)
          (hplain : step.symbol.isBracket = false) (hsymbol : child.2.symbol? = some step.symbol) :
          IsBalanced (Lexeme.source child.2.lexemes) :=
        ih child hchild (hneat.of_mem hchild) hsymbol (hmade.parts _ (List.mem_map_of_mem hstep)) hplain
          (hbareChild child hchild)
      rw [lexemes]
      by_cases harguments : kind = .typeArguments
      · subst harguments
        obtain ⟨gap, between, gap', mid, rfl, hgap, hgap', hplaces, hmid⟩ :=
          exists_group hallows hfills hlast hchildren hneat
        simp only [List.forall_mem_append, List.forall_mem_cons] at hown hinner
        have hbetween := isBalanced_of_fills hplaces hown.1.2 fun child hchild step hstep =>
          hinner.1.2 child hchild step (hmid step hstep).1 (hmid step hstep).2
        rw [source_group]
        exact (isBalanced_gap hgap).append (hbetween.append (isBalanced_gap hgap')).group
      · obtain ⟨f, hf, hsteps⟩ := id hallows
        exact isBalanced_of_fills hfills hown fun child hchild step hstep =>
          hinner child hchild step hstep (unbracketed_forms kind (Construct.mem_all kind) hx harguments
            f hf steps hsteps step hstep)

/-! ### Type arguments -/

theorem IsDerived.spells (h : t.IsDerived) : ∀ l ∈ t.lexemes, ∀ u ∈ l.kind, u.Spells l.text := by
  induction h using IsDerived.induction with
  | token hspells =>
      rw [lexemes, List.forall_mem_singleton]
      rintro _ ⟨⟩
      exact hspells
  | node _ _ _ _ _ ih =>
      intro l hl
      rw [lexemes, lexemesOf_eq, List.mem_flatten] at hl
      obtain ⟨ls, hls, hl⟩ := hl
      obtain ⟨child, hchild, rfl⟩ := List.mem_map.1 hls
      exact ih child hchild l hl

/-- There is no annotation and no comment in a tree without the signs that these begin with. -/
theorem IsDerived.isBare (h : t.IsDerived) (hatSign : '@' ∉ Lexeme.source t.lexemes)
    (hslash : '/' ∉ Lexeme.source t.lexemes) : t.IsBare := by
  intro l hl
  have hmem {sign : Char} (hsign : sign ∈ l.text) : sign ∈ Lexeme.source t.lexemes :=
    List.mem_flatMap.2 ⟨l, hl, List.mem_append_right _ hsign⟩
  refine ⟨fun hkind => ?_, fun hkind => ?_, fun hkind => ?_⟩
  · have htext : l.text = ['@'] := (h.spells l hl _ hkind).spelled _ rfl
    exact hatSign (hmem (htext ▸ List.mem_cons_self))
  · exact hslash (hmem (List.mem_of_head? ((h.spells l hl _ hkind).comment (Or.inl rfl))))
  · exact hslash (hmem (List.mem_of_head? ((h.spells l hl _ hkind).comment (Or.inr rfl))))

/-- The brackets of type arguments match if there is no annotation in them and no comment. -/
theorem IsDerived.exists_group (h : t.IsDerived) (hneat : t.Neat)
    (hsymbol : t.symbol? = some (.construct .typeArguments)) (hn : ofTree {} t = [n])
    (hatSign : '@' ∉ n.text) (hslash : '/' ∉ n.text) :
    ∃ g, n.text = '<' :: g ++ ['>'] ∧ IsBalanced g := by
  have hderived := h
  cases h using IsDerived.induction with
  | token => cases hsymbol
  | @node kind summary steps children _ hallows hfills hlast hchildren _ =>
      cases hsymbol
      obtain ⟨gap, between, gap', mid, rfl, hgap, hgap', hplaces, hmid⟩ :=
        Tree.exists_group hallows hfills hlast hchildren hneat
      rw [ofTree, if_neg (by decide), List.singleton_inj] at hn
      have hsource := sourceOf_ofTrees (opening gap :: between ++ [closing gap'])
      have htext : n.text = '<' :: (Lexeme.source (lexemesOf between) ++ gap') ++ ['>'] := by
        rw [source_group] at hsource
        rw [Node.text, ← hn, Node.source, hsource]
        exact List.drop_left
      have hnowhere {sign : Char} (hsign : sign ∉ n.text) (hgapSign : ∀ c ∈ gap, c ≠ sign) :
          sign ∉ Lexeme.source (node .typeArguments summary (opening gap :: between ++
            [closing gap'])).lexemes := by
        rw [lexemes, source_group, ← htext, List.mem_append, not_or]
        exact ⟨fun hmem => hgapSign sign hmem rfl, hsign⟩
      have hbare := hderived.isBare (hnowhere hatSign fun c hc => (ne_of_mem_gap hgap hc).2.2.1)
        (hnowhere hslash fun c hc => (ne_of_mem_gap hgap hc).2.2.2)
      have hbareChild : ∀ child ∈ opening gap :: between ++ [closing gap'], child.2.IsBare :=
        fun _ => isBare_of_mem hbare
      have hmade := isMadeOf_of_isBare hallows hfills hchildren rfl hbare
      have hown := hfills.isOwn_of_isBare hchildren hbareChild
      have hbetween : between ⊆ opening gap :: between ++ [closing gap'] :=
        List.subset_append_of_subset_left _ (List.subset_cons_self _ _)
      refine ⟨_, htext, IsBalanced.append ?_ (isBalanced_gap hgap')⟩
      refine isBalanced_of_fills hplaces (fun child hchild => hown child (hbetween hchild))
        fun child hchild step hstep hsymbol => ?_
      have hmem := hbetween hchild
      exact (hchildren child hmem).isBalanced (hneat.of_mem hmem) hsymbol
        (hmade.parts _ (List.mem_map_of_mem (hmid step hstep).1)) (hmid step hstep).2 (hbareChild child hmem)

end Syntax.Tree

end EndpointAtlas
