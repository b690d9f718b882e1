import EndpointAtlas.Proofs.Implemented
import EndpointAtlas.Proofs.NormalText
import EndpointAtlas.Proofs.TypeEnds

/-!
# Dimensions after a name

The dimensions of an array stand on the type, or after the name of a parameter or the parameters of a
method. There they are printed by themselves and put behind the type, so that blanks before them are lost.
Before a bracket blanks do not count anyway, but before an annotation a space is printed for them.
-/

namespace EndpointAtlas

open Grammar Syntax Text

/-! ### Two texts printed as one -/

namespace TypeText

variable {l c : Char} {blanks : List Char}

/-- Where blanks part two texts, these are printed as by themselves, with a space or none between. -/
theorem print_append_cons (init cs : List Char) (hl : isWhitespace l = false)
    (hc : isWhitespace c = false) (hblanks : ∀ b ∈ blanks, isWhitespace b) :
    print (init ++ [l] ++ blanks ++ c :: cs) = print (init ++ [l]) ++
      ((if spaced (some l) (!blanks.isEmpty) c then [' '] else []) ++ print (c :: cs)) := by
  obtain ⟨before, hbefore⟩ := exists_layout_append none false init hl
  have hfirst : print (init ++ [l]) = before ++ [l] := hbefore []
  have hsecond : print (c :: cs) = c :: layout (some c) false cs := layout_cons_joined hc rfl
  have hseam : layout (some l) (!blanks.isEmpty) (c :: cs) =
      (if spaced (some l) (!blanks.isEmpty) c then [' '] else []) ++ print (c :: cs) := by
    rw [hsecond]
    split
    · next hspaced => exact layout_cons_spaced hc hspaced
    · next hspaced => exact layout_cons_joined hc (Bool.eq_false_iff.2 hspaced)
  calc print (init ++ [l] ++ blanks ++ c :: cs)
      = print (init ++ l :: (blanks ++ c :: cs)) := by simp only [List.append_assoc, List.cons_append,
          List.nil_append]
    _ = before ++ l :: layout (some l) false (blanks ++ c :: cs) := hbefore _
    _ = print (init ++ [l]) ++ layout (some l) (!blanks.isEmpty) (c :: cs) := by
        rw [layout_blanks hblanks, Bool.false_or, hfirst, List.append_assoc, List.singleton_append]
    _ = _ := by rw [hseam]

/-- After the end of a type a space is printed before an annotation that blanks are before. -/
theorem spaced_dimensions_iff (blank : Bool) (hcomma : l ≠ ',') (hopening : isOpening l = false)
    (hc : c = '[' ∨ c = '@') : spaced (some l) blank c ↔ blank ∧ c = '@' := by
  obtain rfl | rfl := hc <;> simp [spaced, hcomma, hopening, isMark]

end TypeText

namespace Grammar

/-! ### What the grammar says of the names of methods -/

theorem reserved_forms : ∀ f ∈ forms .reservedIdentifier, ∀ steps ∈ Form.sequences f.parts,
    ∃ u ∈ Terminal.all, steps = [⟨.terminal u, none, some (.terminal .identifier)⟩] := by
  decide +kernel

/-- The steps that the name of a method is, or that it is in. -/
def nameSteps : List Step :=
  [⟨.terminal .identifier, some .name, none⟩, ⟨.construct .reservedIdentifier, some .name, none⟩,
    ⟨.construct .methodHeader, none, none⟩, ⟨.construct .methodDeclarator, none, none⟩]

theorem method_forms : ∀ c ∈ [Construct.methodDeclaration, .methodHeader, .methodDeclarator],
    ∀ f ∈ forms c, ∀ steps ∈ Form.sequences f.parts, ∃ step ∈ nameSteps, step ∈ steps := by
  decide +kernel

end Grammar

namespace Syntax

open Node Tree

variable {t : Tree} {c : Construct} {x : Symbol} {steps : List Step} {children : List (Label × Tree)}

/-- An identifier shows in the role that it is given. -/
theorem Tree.IsDerived.exists_identifier (h : t.IsDerived) (hneat : t.Neat)
    (hsymbol : t.symbol? = some x)
    (hx : x ∈ [Grammar.Symbol.terminal .identifier, .construct .reservedIdentifier]) (label : Label) :
    ∃ n ∈ ofTree label t, n.role = label.role := by
  simp only [List.mem_cons, List.not_mem_nil, or_false] at hx
  obtain rfl | rfl := hx
  · obtain ⟨gap, text, -, rfl⟩ := eq_token h hsymbol
    exact ⟨_, List.mem_singleton_self _, rfl⟩
  · cases h using IsDerived.induction with
    | token => cases hsymbol
    | @node kind summary steps children _ hallows hfills hlast hchildren _ =>
        cases hsymbol
        obtain ⟨f, hf, hsteps⟩ := hallows
        obtain ⟨u, -, rfl⟩ := reserved_forms f hf steps hsteps
        cases hneat with
        | node hfirst _ =>
        obtain ⟨v, rfl, hv⟩ := hfills.exists_single hfirst hlast
        obtain ⟨gap, text, -, rfl⟩ := eq_token (hchildren _ List.mem_cons_self) hv
        exact ⟨_, List.mem_map_of_mem (List.mem_singleton_self _), rfl⟩

theorem exists_name_of_fills (hallows : c.Allows steps) (hfills : Fills steps children)
    (hc : c ∈ [Construct.methodDeclaration, .methodHeader, .methodDeclarator])
    (hderived : ∀ child ∈ children, child.2.IsDerived) (hneat : ∀ child ∈ children, child.2.Neat)
    (hinner : ∀ child ∈ children, ∀ d ∈ [Construct.methodHeader, .methodDeclarator],
      child.2.symbol? = some (.construct d) → ∃ n ∈ ofTree {} child.2, n.role = some .name) :
    ∃ n ∈ ofTrees children, n.role = some .name := by
  obtain ⟨f, hf, hsteps⟩ := hallows
  obtain ⟨step, hname, hstep⟩ := method_forms c hc f hf steps hsteps
  obtain ⟨child, hchild, hsymbol, hplace⟩ := hfills.exists_place hstep
  have hshows : ∃ n ∈ ofTree child.1 child.2, n.role = some .name := by
    have hidentifier := (hderived child hchild).exists_identifier (hneat child hchild) hsymbol
    rw [hplace]
    simp only [nameSteps, List.mem_cons, List.not_mem_nil, or_false] at hname
    obtain rfl | rfl | rfl | rfl := hname
    · exact hidentifier (by decide) _
    · exact hidentifier (by decide) _
    · exact hinner child hchild _ (by decide) hsymbol
    · exact hinner child hchild _ (by decide) hsymbol
  obtain ⟨n, hn, hrole⟩ := hshows
  exact ⟨n, mem_ofTrees_iff.2 ⟨child, hchild, hn⟩, hrole⟩

theorem Tree.IsDerived.exists_name (h : t.IsDerived) (hneat : t.Neat)
    (hc : c ∈ [Construct.methodHeader, .methodDeclarator]) (hsymbol : t.symbol? = some (.construct c)) :
    ∃ n ∈ ofTree {} t, n.role = some .name := by
  induction h using IsDerived.induction generalizing c with
  | token => cases hsymbol
  | @node kind summary steps children _ hallows hfills _ hchildren ih =>
      cases hsymbol
      have hhidden : kind.hidden := by
        simp only [List.mem_cons, List.not_mem_nil, or_false] at hc
        obtain hc | hc := hc <;> rw [hc] <;> rfl
      rw [ofTree_of_hidden hhidden]
      exact exists_name_of_fills hallows hfills (List.mem_cons_of_mem _ hc) hchildren
        (fun child hchild => hneat.of_mem hchild)
        fun child hchild d hd hsymbol => ih child hchild (hneat.of_mem hchild) hd hsymbol

end Syntax

namespace Lowering

variable {n m own whole : Node} {type blanks dimensions : List Char}

/-- A method with a return type is not left out for want of a name. -/
theorem exists_method? (h : n.IsDerived) (hkind : n.kind = .construct .methodDeclaration)
    (hown : child? n .type = some own) :
    ∃ x, method? n = some x ∧ x.returnType = dimensioned n own := by
  have hname : (child? n .name).isSome := by
    rw [child?, List.find?_isSome]
    cases h with
    | leaf => cases hown
    | branch _ htree hneat =>
        cases hkind
        obtain ⟨steps, hallows, hfills, -, hderived⟩ := htree.exists_steps
        obtain ⟨k, hk, hrole⟩ := exists_name_of_fills hallows hfills List.mem_cons_self hderived
          (fun child hchild => hneat.of_mem hchild)
          fun child hchild d hd hsymbol =>
            (hderived child hchild).exists_name (hneat.of_mem hchild) hd hsymbol
        exact ⟨k, hk, beq_iff_eq.2 hrole⟩
  obtain ⟨name, hname⟩ := Option.isSome_iff_exists.1 hname
  exact ⟨_, by rw [method?, hname, hown], rfl⟩

theorem exists_parameter? (hkind : n.kind = .construct .formalParameter)
    (hown : child? n .type = some own) :
    ∃ x, parameter? n = some x ∧ x.type = dimensioned n own := by
  have hformal : isConstruct .formalParameter n := beq_iff_eq.2 hkind
  exact ⟨_, by rw [parameter?, if_pos hformal, formalParameter?, hown, Option.map_some], rfl⟩

/-! ### Dimensions in the two places -/

/-- Whether one declaration has dimensions after its name and another one, of the same kind, has them on
the same type, with blanks between. -/
structure IsMoved (n m : Node) (type blanks dimensions : List Char) : Prop where
  kind : m.kind = n.kind
  typed : (child? n .type).map Node.text = some type
  after : (child? n .dimensions).map Node.text = some dimensions
  joined : (child? m .type).map Node.text = some (type ++ blanks ++ dimensions)
  bare : (child? m .dimensions).isNone
  white : blanks.all isWhitespace

instance (n m : Node) (type blanks dimensions : List Char) :
    Decidable (IsMoved n m type blanks dimensions) :=
  decidable_of_iff (m.kind = n.kind ∧ (child? n .type).map Node.text = some type ∧
      (child? n .dimensions).map Node.text = some dimensions ∧
      (child? m .type).map Node.text = some (type ++ blanks ++ dimensions) ∧
      (child? m .dimensions).isNone ∧ blanks.all isWhitespace)
    ⟨fun ⟨hkind, htyped, hafter, hjoined, hbare, hwhite⟩ =>
        ⟨hkind, htyped, hafter, hjoined, hbare, hwhite⟩,
      fun h => ⟨h.kind, h.typed, h.after, h.joined, h.bare, h.white⟩⟩

/-- The two types that the declarations are given are one, but for a space before an annotation. -/
theorem IsMoved.dimensioned_eq_iff (h : IsMoved n m type blanks dimensions) (hn : n.IsDerived)
    (hown : child? n .type = some own) (hwhole : child? m .type = some whole) :
    dimensioned n own = dimensioned m whole ↔ blanks = [] ∨ dimensions.head? = some '[' := by
  obtain ⟨behind, hbehind, rfl⟩ := Option.map_eq_some_iff.1 h.after
  obtain rfl : own.text = type := by simpa [hown] using h.typed
  have htext : whole.text = own.text ++ blanks ++ behind.text := by simpa [hwhole] using h.joined
  have hbare : child? m .dimensions = none := Option.isNone_iff_eq_none.1 h.bare
  -- The last character of the type and the first one of the dimensions settle what stands between.
  obtain ⟨hownMem, hownRole⟩ := mem_children_of_child? hown
  obtain ⟨hbehindMem, hbehindRole⟩ := mem_children_of_child? hbehind
  obtain ⟨init, l, hinit, hl, hcomma, hopening⟩ := hn.exists_type_concat hownMem hownRole
  obtain ⟨c, cs, hcons, hc⟩ := hn.exists_dimensions_cons hbehindMem hbehindRole
  have hsolid : isWhitespace c = false := by obtain rfl | rfl := hc <;> decide
  have hprinted := TypeText.print_append_cons init cs hl hsolid (List.all_eq_true.1 h.white)
  have hspaced := TypeText.spaced_dimensions_iff (!blanks.isEmpty) hcomma hopening hc
  rw [dimensioned, dimensioned, hbehind, hbare]
  dsimp only
  rw [typeText, typeText, typeText, ← String.ofList_append, String.ofList_inj, htext, hinit, hcons,
    hprinted, List.append_cancel_left_eq, List.head?_cons, Option.some_inj]
  split
  · next hspace =>
    obtain ⟨hblank, rfl⟩ := hspaced.1 hspace
    simpa using hblank
  · next hspace =>
    rw [hspaced, Bool.not_eq_true', List.isEmpty_eq_false_iff, not_and] at hspace
    simp only [List.nil_append, true_iff]
    obtain rfl | rfl := hc
    · exact Or.inr rfl
    · exact Or.inl (by_contra fun hne => hspace hne rfl)

end Lowering

/-! ### Dimensions in accepted texts -/

namespace SourceUnit

open Lowering

theorem isDerived_of_ofText {text : List Char} {u : SourceUnit} {path : List Nat} {n : Node}
    (h : ofText false text = .ok u) (hn : (path, n) ∈ (Node.ofRoot (Syntax.parse text)).located) :
    n.IsDerived :=
  isDerived_of_mem_located (isDerived_of_isWhole (isWhole_parse text) h).2 hn

/-- Whatever texts are accepted with a method or a parameter that has its dimensions after the name and
one that has the same dimensions on the same type: the types they are given are one exactly if no blanks
stand before the dimensions on the type or these begin with a bracket. -/
theorem type_eq_iff_of_isMoved {text text' : List Char} {u u' : SourceUnit} {path path' : List Nat}
    {n m : Node} {type blanks dimensions : List Char}
    (h : ofText false text = .ok u) (h' : ofText false text' = .ok u')
    (hn : (path, n) ∈ (Node.ofRoot (Syntax.parse text)).located)
    (hm : (path', m) ∈ (Node.ofRoot (Syntax.parse text')).located)
    (hmoved : IsMoved n m type blanks dimensions) :
    (n.kind = .construct .methodDeclaration → ∃ x y, method? n = some x ∧ method? m = some y ∧
      (x.returnType = y.returnType ↔ blanks = [] ∨ dimensions.head? = some '[')) ∧
    (n.kind = .construct .formalParameter → ∃ x y, parameter? n = some x ∧ parameter? m = some y ∧
      (x.type = y.type ↔ blanks = [] ∨ dimensions.head? = some '[')) := by
  have hderived := isDerived_of_ofText h hn
  have hderived' := isDerived_of_ofText h' hm
  obtain ⟨own, hown, -⟩ := Option.map_eq_some_iff.1 hmoved.typed
  obtain ⟨whole, hwhole, -⟩ := Option.map_eq_some_iff.1 hmoved.joined
  have hsame := hmoved.dimensioned_eq_iff hderived hown hwhole
  constructor
  · intro hkind
    obtain ⟨x, hx, hxtype⟩ := exists_method? hderived hkind hown
    obtain ⟨y, hy, hytype⟩ := exists_method? hderived' (hmoved.kind.trans hkind) hwhole
    exact ⟨x, y, hx, hy, by rw [hxtype, hytype, hsame]⟩
  · intro hkind
    obtain ⟨x, hx, hxtype⟩ := exists_parameter? hkind hown
    obtain ⟨y, hy, hytype⟩ := exists_parameter? (hmoved.kind.trans hkind) hwhole
    exact ⟨x, y, hx, hy, by rw [hxtype, hytype, hsame]⟩

set_option maxRecDepth 100000 in
theorem isMoved_methods :
    let text := "class A{B f(B x[])[];B []g(B []y);B h()@C[];B @C[]i();}".toList
    let root := Node.ofRoot (Syntax.parse text)
    ofText false text = .ok ⟨none, [⟨"A", .classType, [],
        [⟨"f", "B[]", [⟨"x", "B[]"⟩], []⟩, ⟨"g", "B[]", [⟨"y", "B[]"⟩], []⟩, ⟨"h", "B@C[]", [], []⟩,
          ⟨"i", "B @C[]", [], []⟩], []⟩]⟩ ∧
      (∃ n ∈ root.descend? [0, 2, 1], ∃ m ∈ root.descend? [0, 2, 2],
        n.kind = .construct .methodDeclaration ∧ IsMoved n m ['B'] [' '] ['[', ']']) ∧
      (∃ n ∈ root.descend? [0, 2, 1, 2, 1], ∃ m ∈ root.descend? [0, 2, 2, 2, 1],
        n.kind = .construct .formalParameter ∧ IsMoved n m ['B'] [' '] ['[', ']']) ∧
      ∃ n ∈ root.descend? [0, 2, 3], ∃ m ∈ root.descend? [0, 2, 4],
        n.kind = .construct .methodDeclaration ∧ IsMoved n m ['B'] [' '] ['@', 'C', '[', ']'] ∧
        (method? n).map Method.returnType = some "B@C[]" ∧
        (method? m).map Method.returnType = some "B @C[]" := by
  decide +kernel

/-- A method and a parameter with the dimensions in either place. -/
theorem type_eq_iff_of_isMoved_brackets :
    let text := "class A{B f(B x[])[];B []g(B []y);B h()@C[];B @C[]i();}".toList
    let root := Node.ofRoot (Syntax.parse text)
    (∃ u, ofText false text = .ok u) ∧
      (∃ n m x y, ([0, 2, 1], n) ∈ root.located ∧ ([0, 2, 2], m) ∈ root.located ∧
        IsMoved n m ['B'] [' '] ['[', ']'] ∧ method? n = some x ∧ method? m = some y ∧
        x.returnType = y.returnType) ∧
      ∃ n m x y, ([0, 2, 1, 2, 1], n) ∈ root.located ∧ ([0, 2, 2, 2, 1], m) ∈ root.located ∧
        IsMoved n m ['B'] [' '] ['[', ']'] ∧ parameter? n = some x ∧ parameter? m = some y ∧
        x.type = y.type := by
  intro text root
  obtain ⟨hread, ⟨n, hn, m, hm, hkind, hmoved⟩, ⟨n', hn', m', hm', hkind', hmoved'⟩, -⟩ :=
    isMoved_methods
  have hlocated {path : List Nat} {n : Node} (hpath : path ≠ []) (hn : n ∈ root.descend? path) :
      (path, n) ∈ root.located := Node.mem_located_iff.2 ⟨hpath, hn⟩
  have hn := hlocated (by decide) hn
  have hm := hlocated (by decide) hm
  have hn' := hlocated (by decide) hn'
  have hm' := hlocated (by decide) hm'
  obtain ⟨x, y, hx, hy, hsame⟩ := (type_eq_iff_of_isMoved hread hread hn hm hmoved).1 hkind
  obtain ⟨x', y', hx', hy', hsame'⟩ := (type_eq_iff_of_isMoved hread hread hn' hm' hmoved').2 hkind'
  exact ⟨⟨_, hread⟩, ⟨n, m, x, y, hn, hm, hmoved, hx, hy, hsame.2 (Or.inr rfl)⟩,
    n', m', x', y', hn', hm', hmoved', hx', hy', hsame'.2 (Or.inr rfl)⟩

/-- Annotated dimensions are printed with the space before them on the type only. -/
theorem returnType_ne_of_isMoved_annotation :
    let text := "class A{B f(B x[])[];B []g(B []y);B h()@C[];B @C[]i();}".toList
    let root := Node.ofRoot (Syntax.parse text)
    (∃ u, ofText false text = .ok u) ∧
      ∃ n m x y, ([0, 2, 3], n) ∈ root.located ∧ ([0, 2, 4], m) ∈ root.located ∧
        n.kind = .construct .methodDeclaration ∧ IsMoved n m ['B'] [' '] ['@', 'C', '[', ']'] ∧
        method? n = some x ∧ method? m = some y ∧
        x.returnType = "B@C[]" ∧ y.returnType = "B @C[]" ∧ x.returnType ≠ y.returnType := by
  intro text root
  obtain ⟨hread, -, -, n, hn, m, hm, hkind, hmoved, hx, hy⟩ := isMoved_methods
  obtain ⟨x, hx, hxtype⟩ := Option.map_eq_some_iff.1 hx
  obtain ⟨y, hy, hytype⟩ := Option.map_eq_some_iff.1 hy
  refine ⟨⟨_, hread⟩, n, m, x, y, Node.mem_located_iff.2 ⟨by decide, hn⟩,
    Node.mem_located_iff.2 ⟨by decide, hm⟩, hkind, hmoved, hx, hy, hxtype, hytype, ?_⟩
  rw [hxtype, hytype]
  decide

end SourceUnit

end EndpointAtlas
