import EndpointAtlas.Proofs.TypeBrackets
import Mathlib.Data.List.DropRight

/-!
# The names that a type is built from

A named type is built from names with dots between them. Type arguments may stand after each name and
annotations before it, and comments anywhere but at the beginning. The grammar has nothing else in such
a type, and in a list of types there are only such types, others and the commas.
-/

namespace EndpointAtlas

open Grammar Text

namespace Grammar

/-- The kinds of types that are put together from parts. -/
def Kind.isTypeFrame : Kind → Bool
  | .construct .scopedTypeIdentifier | .construct .genericType | .construct .annotatedType => true
  | _ => false

/-- The steps that stand for a type built from names. -/
def namedSteps : List Step :=
  [⟨.terminal .identifier, none, some .typeIdentifier⟩, ⟨.construct .scopedTypeIdentifier, none, none⟩,
    ⟨.construct .genericType, none, none⟩]

/-- Whether a step stands for a node with no name in it. -/
def Step.isPlain (step : Step) : Bool :=
  step.role == none && step.shown == none && match step.symbol with
    | .terminal _ => true
    | .construct c => !c.hidden && !(Kind.construct c).isTypeFrame

/-! ### What the grammar says of named types -/

theorem scoped_forms : ∀ f ∈ forms .scopedTypeIdentifier, ∀ steps ∈ Form.sequences f.parts,
    ∃ base ∈ namedSteps, ∃ annotations ∈ [[], [⟨.construct .annotations, none, none⟩]],
      steps = base :: ⟨.terminal .dot, none, none⟩ :: annotations ++
        [⟨.terminal .identifier, none, some .typeIdentifier⟩] := by
  decide

theorem generic_forms : ∀ f ∈ forms .genericType, ∀ steps ∈ Form.sequences f.parts,
    ∃ base ∈ namedSteps, steps = base :: [] ++ [⟨.construct .typeArguments, none, none⟩] := by
  decide

theorem annotatedType_forms : ∀ f ∈ forms .annotatedType, ∀ steps ∈ Form.sequences f.parts,
    steps = [⟨.construct .annotations, none, none⟩] ++ [⟨.construct .unannotatedType, none, none⟩] := by
  decide

theorem unannotated_forms : ∀ f ∈ forms .unannotatedType, ∀ steps ∈ Form.sequences f.parts,
    ∃ step ∈ steps, steps = [] ++ [step] ∧ (step ∈ namedSteps ∨ step.isPlain) := by
  decide

theorem annotation_forms : ∀ c ∈ [Construct.annotationMarker, .annotationCall], ∀ f ∈ forms c,
    ∀ steps ∈ Form.sequences f.parts, steps.head? = some ⟨.terminal .atSign, none, none⟩ := by
  decide

theorem annotations_forms : ∀ c ∈ [Construct.annotations, .annotationItem], ∀ f ∈ forms c,
    ∀ steps ∈ Form.sequences f.parts, ∀ step ∈ steps, step.role = none ∧ step.shown = none ∧
      step.symbol ∈ [Symbol.construct .annotations, .construct .annotationItem,
        .construct .annotationMarker, .construct .annotationCall] := by
  decide

theorem entry_forms : ∀ c ∈ [Construct.typeList, .typeTail, .anyType], ∀ f ∈ forms c,
    ∀ steps ∈ Form.sequences f.parts, ∀ step ∈ steps, step.role = none ∧ step.shown = none ∧
      step.symbol ∈ [Symbol.terminal .comma, .construct .typeTail, .construct .anyType,
        .construct .unannotatedType, .construct .annotatedType] := by
  decide

end Grammar

namespace Syntax

namespace Node

variable {n m p first last : Node} {ns ps before after : List Node}

/-! ### The parts of a type -/

mutual

/-- The parts of a type from left to right: names, dots, type arguments, annotations and comments. -/
def typeParts : Node → List Node
  | .leaf kind role gap text missing => [.leaf kind role gap text missing]
  | .branch kind role broken ns =>
    if kind.isTypeFrame then typePartsOf ns else [.branch kind role broken ns]

def typePartsOf : List Node → List Node
  | [] => []
  | n :: ns => typeParts n ++ typePartsOf ns

end

def isTypeName (n : Node) : Bool := n.kind == .typeIdentifier

def isMarkup (n : Node) : Bool :=
  n.kind == .construct .annotationMarker || n.kind == .construct .annotationCall

/-- The names among the parts of a type. -/
def namesIn (ps : List Node) : List (List Char) := (ps.filter isTypeName).map text

/-- What stands after the first name among the parts of a type, up to the last one. -/
def afterFirst (ps : List Node) : List Node :=
  ((ps.dropWhile (!isTypeName ·)).drop 1).rdropWhile (!isTypeName ·)

/-- The names that a type is built from, the outermost first. -/
def typeNames (n : Node) : List (List Char) := namesIn n.typeParts

/-- The parts of a type after its first name, up to its last one. -/
def innerParts (n : Node) : List Node := afterFirst n.typeParts

theorem typePartsOf_eq_flatMap (ns : List Node) : typePartsOf ns = ns.flatMap typeParts := by
  induction ns with
  | nil => rfl
  | cons n ns ih => rw [typePartsOf, ih, List.flatMap_cons]

theorem typeParts_frame {kind : Kind} {role : Option Role} {broken : Bool} (h : kind.isTypeFrame) :
    (branch kind role broken ns).typeParts = ns.flatMap typeParts := by
  rw [typeParts, if_pos h, typePartsOf_eq_flatMap]

theorem typeParts_of_isTypeFrame (h : n.kind.isTypeFrame = false) : n.typeParts = [n] := by
  cases n with
  | leaf => rfl
  | branch => exact if_neg (Bool.eq_false_iff.1 h)

mutual

theorem sourceOf_typeParts (n : Node) : sourceOf n.typeParts = n.source := by
  match n with
  | .leaf _ _ _ _ _ => exact sourceOf_singleton _
  | .branch kind _ _ ns =>
      rw [typeParts]
      split
      · exact sourceOf_typePartsOf ns
      · exact sourceOf_singleton _

theorem sourceOf_typePartsOf (ns : List Node) : sourceOf (typePartsOf ns) = sourceOf ns := by
  match ns with
  | [] => rfl
  | n :: ns => rw [typePartsOf, sourceOf_append, sourceOf, sourceOf_typeParts n, sourceOf_typePartsOf ns]

end

/-! ### Names among parts -/

theorem namesIn_append : namesIn (ps ++ ns) = namesIn ps ++ namesIn ns := by
  rw [namesIn, List.filter_append, List.map_append, namesIn, namesIn]

theorem namesIn_eq_nil (h : ∀ p ∈ ps, p.isTypeName = false) : namesIn ps = [] := by
  rw [namesIn, List.filter_eq_nil_iff.2 fun p hp => by simp [h p hp], List.map_nil]

theorem afterFirst_append_left (h : ∀ p ∈ before, p.isTypeName = false) :
    afterFirst (before ++ ps) = afterFirst ps := by
  rw [afterFirst, List.dropWhile_append_of_pos fun p hp => by simp [h p hp], afterFirst]

theorem afterFirst_append_right (hfirst : first.isTypeName) (h : ∀ p ∈ after, p.isTypeName = false) :
    afterFirst (first :: ps ++ after) = afterFirst (first :: ps) := by
  have hdrop (qs : List Node) : (first :: qs).dropWhile (!isTypeName ·) = first :: qs :=
    List.dropWhile_cons_of_neg (by simp [hfirst])
  rw [afterFirst, afterFirst, List.cons_append, hdrop, hdrop, List.drop_one, List.drop_one]
  change (ps ++ after).rdropWhile _ = ps.rdropWhile _
  induction after using List.reverseRecOn with
  | nil => rw [List.append_nil]
  | append_singleton after p ih =>
      rw [List.forall_mem_append, List.forall_mem_singleton] at h
      rw [← List.append_assoc, List.rdropWhile_concat_pos _ _ _ (by simp [h.2]), ih h.1]

theorem afterFirst_concat (hfirst : first.isTypeName) (hlast : last.isTypeName) :
    afterFirst (first :: ps ++ [last]) = ps ++ [last] := by
  rw [afterFirst, List.cons_append, List.dropWhile_cons_of_neg (by simp [hfirst]), List.drop_one]
  exact List.rdropWhile_concat_neg _ _ _ (by simp [hlast])

/-! ### Nodes of types -/

/-- A comment or an annotation between the other parts of a type. -/
structure IsAside (n : Node) : Prop where
  kind : n.isMarkup ∨ n.isComment
  head : n.text.head? = some '@' ∨ n.text.head? = some '/'

/-- Type arguments. Without annotations and comments in them all of their brackets match. -/
structure IsArguments (n : Node) : Prop where
  kind : n.kind = .construct .typeArguments
  group : '@' ∉ n.text → '/' ∉ n.text → ∃ g, n.text = '<' :: g ++ ['>'] ∧ TypeReference.IsBalanced g

/-- A type built from names. It begins with the first of them. -/
inductive IsNamed : Node → Prop
  | name {role : Option Role} {gap text : List Char} :
      Terminal.identifier.Spells text → IsNamed (leaf .typeIdentifier role gap text false)
  | dotted {role role' role'' : Option Role} {broken : Bool} {gap gap' text : List Char}
      {base : Node} {before after : List Node} :
      IsNamed base → (∀ p ∈ before, IsAside p) → (∀ p ∈ after, IsAside p) →
      Terminal.identifier.Spells text →
      IsNamed (branch (.construct .scopedTypeIdentifier) role broken
        (base :: before ++ leaf (.terminal .dot) role' gap ['.'] false :: after ++
          [leaf .typeIdentifier role'' gap' text false]))
  | generic {role : Option Role} {broken : Bool} {base arguments : Node} {before : List Node} :
      IsNamed base → (∀ p ∈ before, IsAside p) → IsArguments arguments →
      IsNamed (branch (.construct .genericType) role broken (base :: before ++ [arguments]))

theorem isNamed_of_isNamed (h : n.IsNamed) : n.isNamed := by
  cases h <;> rfl

/-- A node that is no part of a name and has none. -/
structure IsPlain (n : Node) : Prop where
  frame : n.kind.isTypeFrame = false
  name : n.isTypeName = false

/-- A type, or what stands between the types of a list. -/
inductive IsEntry : Node → Prop
  | plain {n : Node} : IsPlain n → IsEntry n
  | named {n : Node} : IsNamed n → IsEntry n
  | annotated {role : Option Role} {broken : Bool} {before : List Node} {m : Node} :
      (∀ p ∈ before, IsAside p) → IsNamed m ∨ IsPlain m →
      IsEntry (branch (.construct .annotatedType) role broken (before ++ [m]))

theorem IsAside.isPlain (h : n.IsAside) : n.IsPlain := by
  have hkind := h.kind
  rw [isMarkup, isComment, Bool.or_eq_true, Bool.or_eq_true, beq_iff_eq, beq_iff_eq, beq_iff_eq,
    beq_iff_eq] at hkind
  constructor
  · obtain (hkind | hkind) | hkind | hkind := hkind <;> rw [hkind] <;> rfl
  · rw [isTypeName]
    obtain (hkind | hkind) | hkind | hkind := hkind <;> rw [hkind] <;> rfl

theorem IsNote.isAside (h : n.IsNote) : n.IsAside := by
  obtain ⟨t, gap, text, ht, hspells, rfl⟩ := h
  refine ⟨Or.inr ?_, Or.inr ?_⟩
  · obtain rfl | rfl := ht <;> rfl
  · rw [text_leaf]
    exact hspells.comment ht

theorem flatMap_typeParts_of_isAside (h : ∀ p ∈ ps, IsAside p) : ps.flatMap typeParts = ps := by
  induction ps with
  | nil => rfl
  | cons p ps ih =>
      rw [List.forall_mem_cons] at h
      rw [List.flatMap_cons, typeParts_of_isTypeFrame h.1.isPlain.frame, ih h.2]
      rfl

theorem ofTree_of_hidden {c : Construct} {summary : Summary} {children : List (Label × Tree)}
    (h : c.hidden) : ofTree {} (.node c summary children) = ofTrees children := by
  rw [ofTree, if_pos h, funext giveRole_none, List.map_id']

end Node

/-! ### Trees of named types -/

namespace Tree

open Node

variable {t : Tree} {steps : List Step} {step : Step} {children : List (Label × Tree)} {c : Construct}

/-- What is between two steps of a node, where no step but for annotations stands. -/
theorem isAside_of_fills (hfills : Fills steps children) (hderived : ∀ child ∈ children, child.2.IsDerived)
    (hsteps : ∀ step ∈ steps, ∀ child ∈ children, child.2.symbol? = some step.symbol →
      ∀ n ∈ ofTree { role := step.role, shown := step.shown } child.2, n.IsAside) :
    ∀ n ∈ ofTrees children, n.IsAside := by
  intro n hn
  obtain ⟨child, hchild, hn⟩ := mem_ofTrees_iff.1 hn
  obtain ⟨hextra, hloose⟩ | ⟨step, hstep, hsymbol, hplace⟩ := hfills.cases_of_mem hchild
  · exact (hloose.isNote hextra (hderived child hchild) n hn).isAside
  · rw [hplace] at hn
    exact hsteps step hstep child hchild hsymbol n hn

theorem isAside_of_extras (hfills : Fills [] children)
    (hderived : ∀ child ∈ children, child.2.IsDerived) : ∀ n ∈ ofTrees children, n.IsAside :=
  isAside_of_fills hfills hderived (List.forall_mem_nil _)

/-- An annotation begins with an at sign. -/
theorem IsDerived.isAside_markup (h : t.IsDerived) (hneat : t.Neat)
    (hc : c ∈ [Construct.annotationMarker, .annotationCall]) (hsymbol : t.symbol? = some (.construct c))
    (label : Label) : ∀ n ∈ ofTree label t, n.IsAside := by
  have hshown : c.hidden = false ∧
      (c = .annotationMarker ∨ c = .annotationCall) := by
    simp only [List.mem_cons, List.not_mem_nil, or_false] at hc
    obtain rfl | rfl := hc <;> decide
  cases h using IsDerived.induction with
  | token => cases hsymbol
  | @node kind summary steps children _ hallows hfills _ hchildren _ =>
      cases hsymbol
      obtain ⟨f, hf, hsteps⟩ := hallows
      obtain ⟨rest, rfl⟩ := List.head?_eq_some_iff.1 (annotation_forms _ hc f hf steps hsteps)
      cases hneat with
      | node hfirst _ =>
      obtain ⟨u, others, rfl, hatSign, -⟩ := hfills.exists_head hfirst
      obtain ⟨gap, text, hspells, rfl⟩ := eq_token (hchildren _ List.mem_cons_self) hatSign
      obtain rfl : text = ['@'] := hspells.spelled _ rfl
      intro n hn
      rw [ofTree, if_neg (by simp [hshown.1]), List.mem_singleton] at hn
      subst hn
      refine ⟨Or.inl ?_, Or.inl ?_⟩
      · obtain rfl | rfl := hshown.2 <;> rfl
      · rw [Node.text, Node.gap, Node.source, ofTrees, ofChild, ofTree, List.singleton_append, gapOf,
          Node.sourceOf, Node.source, Node.gap, List.append_assoc, List.drop_left]
        rfl

theorem IsDerived.isAside (h : t.IsDerived) (hneat : t.Neat)
    (hc : c ∈ [Construct.annotations, .annotationItem]) (hsymbol : t.symbol? = some (.construct c)) :
    ∀ n ∈ ofTree {} t, n.IsAside := by
  induction h using IsDerived.induction generalizing c with
  | token => cases hsymbol
  | @node kind summary steps children _ hallows hfills _ hchildren ih =>
      cases hsymbol
      have hhidden : kind.hidden := by
        simp only [List.mem_cons, List.not_mem_nil, or_false] at hc
        obtain hc | hc := hc <;> rw [hc] <;> rfl
      obtain ⟨f, hf, hsteps⟩ := hallows
      rw [ofTree_of_hidden hhidden]
      refine isAside_of_fills hfills hchildren fun step hstep child hchild hsymbol => ?_
      obtain ⟨hrole, hshown, hmem⟩ := annotations_forms _ hc f hf steps hsteps step hstep
      rw [hrole, hshown]
      have hchildNeat := hneat.of_mem hchild
      simp only [List.mem_cons, List.not_mem_nil, or_false] at hmem
      obtain hx | hx | hx | hx := hmem <;> rw [hx] at hsymbol
      · exact ih child hchild hchildNeat (by decide) hsymbol
      · exact ih child hchild hchildNeat (by decide) hsymbol
      · exact (hchildren child hchild).isAside_markup hchildNeat (by decide) hsymbol {}
      · exact (hchildren child hchild).isAside_markup hchildNeat (by decide) hsymbol {}

/-- The names of a type, its dots and its type arguments are all that the grammar puts into it beside
annotations. -/
theorem IsDerived.exists_isNamed (h : t.IsDerived) (hneat : t.Neat) (hstep : step ∈ namedSteps)
    (hsymbol : t.symbol? = some step.symbol) :
    ∃ n, ofTree { role := step.role, shown := step.shown } t = [n] ∧ n.IsNamed := by
  induction h using IsDerived.induction generalizing step with
  | @token kind gap text hspells =>
      simp only [namedSteps, List.mem_cons, List.not_mem_nil, or_false] at hstep
      obtain rfl | rfl | rfl := hstep <;> cases hsymbol
      exact ⟨_, rfl, .name hspells⟩
  | @node kind summary steps children _ hallows hfills hlast hchildren ih =>
      obtain ⟨f, hf, hsteps⟩ := hallows
      cases hneat with
      | node hfirst hneat =>
      simp only [namedSteps, List.mem_cons, List.not_mem_nil, or_false] at hstep
      obtain rfl | rfl | rfl := hstep <;> cases hsymbol
      · -- A name with others before it.
        obtain ⟨base, hbase, annotations, hannotations, rfl⟩ := scoped_forms f hf steps hsteps
        obtain ⟨outer, between, own, rfl, houter, hbetween, hown⟩ := hfills.exists_ends hfirst hlast
        obtain ⟨extras, point, rest, rfl, hextras, hpoint, hrest⟩ := hbetween.exists_cons
        simp only [List.forall_mem_append, List.forall_mem_cons] at hchildren hneat ih
        obtain ⟨⟨-, hextrasDerived, hpointDerived, hrestDerived⟩, hownDerived, -⟩ := hchildren
        obtain ⟨⟨houterNeat, -, -, hrestNeat⟩, -⟩ := hneat
        obtain ⟨n, hn, hnamed⟩ := ih.1.1 houterNeat hbase houter
        obtain ⟨gap, text, hspells, rfl⟩ := eq_token hpointDerived hpoint
        obtain rfl : text = ['.'] := hspells.spelled _ rfl
        obtain ⟨gap', text', hspells', rfl⟩ := eq_token hownDerived hown
        have hasides : ∀ p ∈ ofTrees rest, p.IsAside := by
          refine isAside_of_fills hrest hrestDerived fun step hstep child hchild hsymbol => ?_
          simp only [List.mem_cons, List.not_mem_nil, or_false] at hannotations
          obtain rfl | rfl := hannotations
          · cases hstep
          · obtain rfl := List.mem_singleton.1 hstep
            exact (hrestDerived child hchild).isAside (hrestNeat child hchild) (by decide) hsymbol
        have hscoped : IsNamed (branch (.construct .scopedTypeIdentifier) none summary.repaired
            (n :: ofTrees extras ++ leaf (.terminal .dot) none gap ['.'] false :: ofTrees rest ++
              [leaf .typeIdentifier none gap' text' false])) :=
          .dotted hnamed (isAside_of_extras hextras hextrasDerived) hasides hspells'
        refine ⟨_, by rw [ofTree, if_neg (by decide)], ?_⟩
        simpa [ofTrees, ofTrees_append, ofChild, ofTree, hn] using hscoped
      · -- A name with type arguments.
        obtain ⟨base, hbase, rfl⟩ := generic_forms f hf steps hsteps
        obtain ⟨outer, extras, arguments, rfl, houter, hextras, harguments⟩ :=
          hfills.exists_ends hfirst hlast
        simp only [List.forall_mem_append, List.forall_mem_cons] at hchildren hneat ih
        obtain ⟨⟨-, hextrasDerived⟩, hargumentsDerived, -⟩ := hchildren
        obtain ⟨n, hn, hnamed⟩ := ih.1.1 hneat.1.1 hbase houter
        obtain ⟨broken, ns, hsingle⟩ := ofTree_of_shown harguments rfl {}
        have hgroup := hargumentsDerived.exists_group hneat.2.1 harguments hsingle
        have hgeneric : IsNamed (branch (.construct .genericType) none summary.repaired
            (n :: ofTrees extras ++ [branch (.construct .typeArguments) none broken ns])) :=
          .generic hnamed (isAside_of_extras hextras hextrasDerived) ⟨rfl, hgroup⟩
        refine ⟨_, by rw [ofTree, if_neg (by decide)], ?_⟩
        simpa [ofTrees, ofTrees_append, ofChild, hn, hsingle] using hgeneric

theorem IsDerived.exists_isPlain (h : t.IsDerived) (hstep : step.isPlain)
    (hsymbol : t.symbol? = some step.symbol) :
    ∃ n, ofTree { role := step.role, shown := step.shown } t = [n] ∧ n.IsPlain := by
  rw [Step.isPlain, Bool.and_eq_true, Bool.and_eq_true, beq_iff_eq, beq_iff_eq] at hstep
  obtain ⟨⟨hrole, hshown⟩, hplain⟩ := hstep
  rw [hrole, hshown]
  cases hx : step.symbol with
  | terminal u =>
      rw [hx] at hsymbol
      obtain ⟨gap, text, -, rfl⟩ := eq_token h hsymbol
      exact ⟨_, rfl, rfl, rfl⟩
  | construct d =>
      rw [hx] at hsymbol hplain
      simp only [Bool.and_eq_true, Bool.not_eq_true'] at hplain
      obtain ⟨broken, ns, hsingle⟩ := ofTree_of_shown hsymbol hplain.1 {}
      exact ⟨_, hsingle, hplain.2, rfl⟩

/-- A type without annotations of its own shows as one node. -/
theorem IsDerived.exists_unannotated (h : t.IsDerived) (hneat : t.Neat)
    (hsymbol : t.symbol? = some (.construct .unannotatedType)) :
    ∃ n, ofTree {} t = [n] ∧ (n.IsNamed ∨ n.IsPlain) := by
  cases h using IsDerived.induction with
  | token => cases hsymbol
  | @node kind summary steps children _ hallows hfills hlast hchildren _ =>
      cases hsymbol
      obtain ⟨f, hf, hsteps⟩ := hallows
      obtain ⟨step, -, rfl, hstep⟩ := unannotated_forms f hf steps hsteps
      cases hneat with
      | node hfirst hneat =>
      obtain ⟨u, rfl, hu⟩ := hfills.exists_single hfirst hlast
      rw [List.forall_mem_singleton] at hchildren hneat
      rw [ofTree_of_hidden rfl, ofTrees_singleton]
      obtain hnamed | hplain := hstep
      · obtain ⟨n, hn, hnamed⟩ := hchildren.exists_isNamed hneat hnamed hu
        exact ⟨n, hn, Or.inl hnamed⟩
      · obtain ⟨n, hn, hplain⟩ := hchildren.exists_isPlain hplain hu
        exact ⟨n, hn, Or.inr hplain⟩

theorem IsDerived.exists_annotated (h : t.IsDerived) (hneat : t.Neat)
    (hsymbol : t.symbol? = some (.construct .annotatedType)) :
    ∃ n, ofTree {} t = [n] ∧ n.IsEntry := by
  cases h using IsDerived.induction with
  | token => cases hsymbol
  | @node kind summary steps children _ hallows hfills hlast hchildren _ =>
      cases hsymbol
      obtain ⟨f, hf, hsteps⟩ := hallows
      rw [annotatedType_forms f hf steps hsteps] at hfills
      cases hneat with
      | node _ hneat =>
      obtain ⟨before, u, rfl, hu, hbefore⟩ := hfills.exists_last hlast
      simp only [List.forall_mem_append, List.forall_mem_cons] at hchildren hneat
      have hasides : ∀ p ∈ ofTrees before, p.IsAside := by
        refine isAside_of_fills hbefore hchildren.1 fun step hstep child hchild hsymbol => ?_
        obtain rfl := List.mem_singleton.1 hstep
        exact (hchildren.1 child hchild).isAside (hneat.1 child hchild) (by decide) hsymbol
      obtain ⟨m, hm, htype⟩ := hchildren.2.1.exists_unannotated hneat.2.1 hu
      refine ⟨_, by rw [ofTree, if_neg (by decide)], ?_⟩
      rw [ofTrees_append, ofTrees_singleton, hm]
      exact .annotated hasides htype

/-- What the list of types shows. -/
theorem isEntry_of_fills {c : Construct} (hc : c ∈ [Construct.typeList, .typeTail, .anyType])
    (hallows : c.Allows steps) (hfills : Fills steps children)
    (hderived : ∀ child ∈ children, child.2.IsDerived) (hneat : ∀ child ∈ children, child.2.Neat)
    (hinner : ∀ child ∈ children, ∀ d ∈ [Construct.typeTail, .anyType],
      child.2.symbol? = some (.construct d) → ∀ n ∈ ofTree {} child.2, n.IsEntry) :
    ∀ n ∈ ofTrees children, n.IsEntry := by
  intro n hn
  obtain ⟨child, hchild, hn⟩ := mem_ofTrees_iff.1 hn
  obtain ⟨hextra, hloose⟩ | ⟨step, hstep, hsymbol, hplace⟩ := hfills.cases_of_mem hchild
  · exact .plain (hloose.isNote hextra (hderived child hchild) n hn).isAside.isPlain
  obtain ⟨f, hf, hsteps⟩ := hallows
  obtain ⟨hrole, hshown, hmem⟩ := entry_forms c hc f hf steps hsteps step hstep
  rw [hplace, hrole, hshown] at hn
  simp only [List.mem_cons, List.not_mem_nil, or_false] at hmem
  obtain hx | hx | hx | hx | hx := hmem <;> rw [hx] at hsymbol
  · obtain ⟨gap, text, -, htoken⟩ := eq_token (hderived child hchild) hsymbol
    rw [htoken, ofTree, List.mem_singleton] at hn
    rw [hn]
    exact .plain ⟨rfl, rfl⟩
  · exact hinner child hchild _ (by decide) hsymbol n hn
  · exact hinner child hchild _ (by decide) hsymbol n hn
  · obtain ⟨m, hm, hnamed | hplain⟩ :=
      (hderived child hchild).exists_unannotated (hneat child hchild) hsymbol
    · rw [hm, List.mem_singleton] at hn
      rw [hn]
      exact .named hnamed
    · rw [hm, List.mem_singleton] at hn
      rw [hn]
      exact .plain hplain
  · obtain ⟨m, hm, hentry⟩ :=
      (hderived child hchild).exists_annotated (hneat child hchild) hsymbol
    rw [hm, List.mem_singleton] at hn
    rwa [hn]

theorem IsDerived.isEntry (h : t.IsDerived) (hneat : t.Neat)
    (hc : c ∈ [Construct.typeTail, .anyType]) (hsymbol : t.symbol? = some (.construct c)) :
    ∀ n ∈ ofTree {} t, n.IsEntry := by
  induction h using IsDerived.induction generalizing c with
  | token => cases hsymbol
  | @node kind summary steps children _ hallows hfills _ hchildren ih =>
      cases hsymbol
      have hhidden : kind.hidden := by
        simp only [List.mem_cons, List.not_mem_nil, or_false] at hc
        obtain hc | hc := hc <;> rw [hc] <;> rfl
      rw [ofTree_of_hidden hhidden]
      exact isEntry_of_fills (List.mem_cons_of_mem _ hc) hallows hfills hchildren
        (fun child hchild => hneat.of_mem hchild)
        fun child hchild d hd hsymbol => ih child hchild (hneat.of_mem hchild) hd hsymbol

end Tree

/-- A list of types has types in it, and only marks and comments beside them. -/
theorem Node.IsDerived.isEntry {n m : Node} (h : n.IsDerived) (hkind : n.kind = .construct .typeList)
    (hm : m ∈ n.children) : m.IsEntry := by
  cases h with
  | leaf => cases hm
  | branch _ htree hneat =>
      cases hkind
      obtain ⟨steps, hallows, hfills, -, hderived⟩ := htree.exists_steps
      exact Tree.isEntry_of_fills List.mem_cons_self hallows hfills hderived
        (fun child hchild => hneat.of_mem hchild)
        (fun child hchild d hd hsymbol =>
          (hderived child hchild).isEntry (hneat.of_mem hchild) hd hsymbol) m hm

end Syntax

end EndpointAtlas
