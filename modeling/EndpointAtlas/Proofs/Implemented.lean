import EndpointAtlas.Proofs.NamedReference
import EndpointAtlas.Proofs.TypeNames
import EndpointAtlas.Proofs.WellFormedUnits

/-!
# What a class refers to as implemented

A class has one reference for each named type that it lists, in source order. The last name of the type
is the name that is referred to, and the others are the qualifier. Brackets that match are erased with
all that is in them, and white space is erased too, but what else stands between two names gets into the
reference: an annotation of an inner name, or a comment.
-/

namespace EndpointAtlas

open Grammar Text Syntax

namespace Syntax.Node

open TypeReference

variable {n m p first : Node} {ps rest : List Node} {outer : List (List Char)} {name : List Char}

/-! ### The parts of a type -/

/-- A part of a type: a name, a dot, type arguments, or what stands aside from these. -/
inductive IsTypePart : Node → Prop
  | name {n : Node} : n.isTypeName → IsSpelled n.text → IsTypePart n
  | dot {n : Node} : n.kind = .terminal .dot → n.text = ['.'] → IsTypePart n
  | arguments {n : Node} : n.IsArguments → IsTypePart n
  | aside {n : Node} : n.IsAside → IsTypePart n

/-- Whether there is only white space before a part, and the brackets of type arguments match even if an
annotation or a comment is in them. -/
structure IsLaid (p : Node) : Prop where
  blank : ∀ c ∈ p.gap, isWhitespace c
  balanced : p.kind = .construct .typeArguments → '@' ∈ p.text ∨ '/' ∈ p.text →
    ∃ g, p.text = '<' :: g ++ ['>'] ∧ IsBalanced g

/-- What a part puts into the name of a type. -/
def spelling (p : Node) : List Char :=
  if p.isTypeName then p.text else if p.kind = .terminal .dot then ['.'] else []

theorem spelling_name (h : p.isTypeName) : p.spelling = p.text := if_pos h

theorem spelling_plain (h : p.isTypeName = false) (hdot : p.kind ≠ .terminal .dot) : p.spelling = [] := by
  rw [spelling, if_neg (Bool.eq_false_iff.1 h), if_neg hdot]

theorem isTypeName_of_arguments (h : p.IsArguments) : p.isTypeName = false := by
  rw [isTypeName, h.kind]
  rfl

theorem spelling_arguments (h : p.IsArguments) : p.spelling = [] :=
  spelling_plain (isTypeName_of_arguments h) (by rw [h.kind]; nofun)

theorem spelling_aside (h : p.IsAside) : p.spelling = [] := by
  refine spelling_plain h.isPlain.name fun hdot => ?_
  have hkind := h.kind
  simp [isMarkup, isComment, hdot] at hkind

theorem flatMap_spelling_asides (h : ∀ p ∈ ps, p.IsAside) : ps.flatMap spelling = [] :=
  List.flatMap_eq_nil_iff.2 fun p hp => spelling_aside (h p hp)

theorem namesIn_asides (h : ∀ p ∈ ps, p.IsAside) : namesIn ps = [] :=
  namesIn_eq_nil fun p hp => (h p hp).isPlain.name

/-! ### Named types -/

theorem typeParts_dotted {role : Option Role} {broken : Bool} {base dot own : Node}
    {before after : List Node} (hbefore : ∀ p ∈ before, p.IsAside) (hafter : ∀ p ∈ after, p.IsAside)
    (hdot : dot.kind.isTypeFrame = false) (hown : own.kind.isTypeFrame = false) :
    (branch (.construct .scopedTypeIdentifier) role broken
      (base :: before ++ dot :: after ++ [own])).typeParts =
      base.typeParts ++ before ++ dot :: after ++ [own] := by
  rw [typeParts_frame rfl]
  simp [flatMap_typeParts_of_isAside hbefore, flatMap_typeParts_of_isAside hafter,
    typeParts_of_isTypeFrame hdot, typeParts_of_isTypeFrame hown]

theorem typeParts_generic {role : Option Role} {broken : Bool} {base arguments : Node}
    {before : List Node} (hbefore : ∀ p ∈ before, p.IsAside)
    (harguments : arguments.IsArguments) :
    (branch (.construct .genericType) role broken (base :: before ++ [arguments])).typeParts =
      base.typeParts ++ (before ++ [arguments]) := by
  rw [typeParts_frame rfl]
  simp [flatMap_typeParts_of_isAside hbefore, typeParts_of_isTypeFrame (n := arguments)
    (by rw [harguments.kind]; rfl)]

theorem notName_arguments {arguments : Node} {before : List Node} (hbefore : ∀ p ∈ before, p.IsAside)
    (harguments : arguments.IsArguments) :
    ∀ p ∈ before ++ [arguments], p.isTypeName = false := by
  rw [List.forall_mem_append, List.forall_mem_singleton]
  exact ⟨fun p hp => (hbefore p hp).isPlain.name, isTypeName_of_arguments harguments⟩

theorem typeNames_generic {role : Option Role} {broken : Bool} {base arguments : Node}
    {before : List Node} (hbefore : ∀ p ∈ before, p.IsAside)
    (harguments : arguments.IsArguments) :
    (branch (.construct .genericType) role broken (base :: before ++ [arguments])).typeNames =
      base.typeNames := by
  rw [typeNames, typeParts_generic hbefore harguments, namesIn_append,
    namesIn_eq_nil (notName_arguments hbefore harguments), List.append_nil, typeNames]

/-- A named type begins with its first name. -/
theorem IsNamed.exists_first (h : n.IsNamed) :
    ∃ first rest, n.typeParts = first :: rest ∧ first.isTypeName ∧ n.gap = first.gap := by
  induction h with
  | name _ => exact ⟨_, [], rfl, rfl, rfl⟩
  | dotted _ hbefore hafter _ ih =>
      obtain ⟨first, rest, hparts, hfirst, hgap⟩ := ih
      exact ⟨first, _, by rw [typeParts_dotted hbefore hafter rfl rfl, hparts]; rfl, hfirst, hgap⟩
  | generic _ hbefore harguments ih =>
      obtain ⟨first, rest, hparts, hfirst, hgap⟩ := ih
      exact ⟨first, _, by rw [typeParts_generic hbefore harguments, hparts]; rfl, hfirst, hgap⟩

/-- The text of a named type is made up of its parts. -/
theorem IsNamed.text_eq (h : n.IsNamed) (hparts : n.typeParts = first :: rest) :
    n.text = first.text ++ sourceOf rest := by
  obtain ⟨first', rest', hparts', -, hgap⟩ := h.exists_first
  obtain ⟨rfl, rfl⟩ := List.cons.inj (hparts'.symm.trans hparts)
  rw [text, ← sourceOf_typeParts, hparts, sourceOf, hgap, source_eq, List.append_assoc,
    List.drop_left]

theorem isTypePart_of_spells {role : Option Role} {gap text : List Char}
    (h : Terminal.identifier.Spells text) : IsTypePart (leaf .typeIdentifier role gap text false) := by
  obtain ⟨hne, hparts⟩ := h.identifier rfl
  exact .name rfl ⟨by rwa [text_leaf], by rwa [text_leaf]⟩

theorem IsNamed.isTypePart (h : n.IsNamed) : ∀ p ∈ n.typeParts, p.IsTypePart := by
  induction h with
  | name hspells => exact List.forall_mem_singleton.2 (isTypePart_of_spells hspells)
  | dotted _ hbefore hafter hspells ih =>
      rw [typeParts_dotted hbefore hafter rfl rfl, List.forall_mem_append, List.forall_mem_append,
        List.forall_mem_append, List.forall_mem_cons, List.forall_mem_singleton]
      exact ⟨⟨⟨ih, fun p hp => .aside (hbefore p hp)⟩, .dot rfl (text_leaf ..),
        fun p hp => .aside (hafter p hp)⟩, isTypePart_of_spells hspells⟩
  | generic _ hbefore harguments ih =>
      rw [typeParts_generic hbefore harguments, List.forall_mem_append, List.forall_mem_append,
        List.forall_mem_singleton]
      exact ⟨ih, fun p hp => .aside (hbefore p hp), .arguments harguments⟩

/-- The names of a type with the dots between them are what its parts put into its name. -/
theorem IsNamed.flatMap_spelling (h : n.IsNamed) : n.typeNames ≠ [] ∧
    n.typeParts.flatMap spelling = ['.'].intercalate n.typeNames := by
  induction h with
  | @name role gap text _ =>
      have hparts : (leaf .typeIdentifier role gap text false).typeParts.flatMap spelling = [] ++
          (leaf .typeIdentifier role gap text false).text := by
        rw [typeParts, List.flatMap_singleton, spelling_name rfl, List.nil_append]
      exact ⟨List.cons_ne_nil _ _, hparts.trans List.intercalate_singleton.symm⟩
  | @dotted role role' role'' broken gap gap' text base before after _ hbefore hafter _ ih =>
      have hnames : (branch (.construct .scopedTypeIdentifier) role broken
          (base :: before ++ leaf (.terminal .dot) role' gap ['.'] false :: after ++
            [leaf .typeIdentifier role'' gap' text false])).typeNames = base.typeNames ++ [text] := by
        have hdot : namesIn (leaf (.terminal .dot) role' gap ['.'] false :: after) = [] :=
          namesIn_eq_nil (List.forall_mem_cons.2 ⟨rfl, fun p hp => (hafter p hp).isPlain.name⟩)
        have hown : namesIn [leaf .typeIdentifier role'' gap' text false] = [text] := by
          rw [namesIn, List.filter_cons_of_pos rfl, List.filter_nil, List.map_singleton, text_leaf]
        rw [typeNames, typeParts_dotted hbefore hafter rfl rfl, namesIn_append, namesIn_append,
          namesIn_append, namesIn_asides hbefore, hdot, hown, List.append_nil, List.append_nil, typeNames]
      refine ⟨by rw [hnames]; exact List.append_ne_nil_of_right_ne_nil _ (List.cons_ne_nil _ _), ?_⟩
      rw [hnames, intercalate_concat ih.1, ← ih.2, typeParts_dotted hbefore hafter rfl rfl,
        List.flatMap_append, List.flatMap_append, List.flatMap_append, flatMap_spelling_asides hbefore,
        List.flatMap_cons, flatMap_spelling_asides hafter, List.flatMap_singleton,
        spelling_name (p := leaf .typeIdentifier role'' gap' text false) rfl, text_leaf, List.append_nil,
        List.append_nil, List.append_assoc]
      rfl
  | @generic role broken base arguments before _ hbefore harguments ih =>
      rw [typeNames_generic hbefore harguments, typeParts_generic hbefore harguments,
        List.flatMap_append, List.flatMap_append, flatMap_spelling_asides hbefore, List.flatMap_singleton,
        spelling_arguments harguments, List.append_nil, List.append_nil]
      exact ih

/-! ### What is left of the parts -/

/-- Of a part that does not stand aside only its name or its dot is left. -/
theorem erase_source (hpart : p.IsTypePart) (hlaid : p.IsLaid) (haside : ¬ p.IsAside)
    (rest : List Char) : erase 0 (p.source ++ rest) = p.spelling ++ erase 0 rest := by
  rw [source_eq, List.append_assoc, erase_blanks hlaid.blank]
  cases hpart with
  | name hname hspelled => rw [erase_append_of_plain hspelled.plain, spelling_name hname]
  | dot hkind htext =>
      have hspelling : p.spelling = ['.'] := by
        rw [spelling, if_neg (by simp [isTypeName, hkind]), if_pos hkind]
      rw [htext, hspelling, erase_append_of_plain (List.forall_mem_singleton.2 (by decide))]
  | arguments harguments =>
      obtain ⟨g, htext, hbalanced⟩ : ∃ g, p.text = '<' :: g ++ ['>'] ∧ IsBalanced g := by
        by_cases hsign : '@' ∈ p.text ∨ '/' ∈ p.text
        · exact hlaid.balanced harguments.kind hsign
        · exact harguments.group (mt Or.inl hsign) (mt Or.inr hsign)
      rw [htext, spelling_arguments harguments, List.append_assoc, List.singleton_append,
        erase_group hbalanced]
      rfl
  | aside h => exact absurd h haside

theorem erase_sourceOf (hparts : ∀ p ∈ ps, p.IsTypePart) (hlaid : ∀ p ∈ ps, p.IsLaid)
    (haside : ∀ p ∈ ps, ¬ p.IsAside) : erase 0 (sourceOf ps) = ps.flatMap spelling := by
  induction ps with
  | nil => rfl
  | cons p ps ih =>
      rw [List.forall_mem_cons] at hparts hlaid haside
      rw [sourceOf, erase_source hparts.1 hlaid.1 haside.1, ih hparts.2 hlaid.2 haside.2,
        List.flatMap_cons]

/-- The first sign of an annotation or of a comment is left. -/
theorem mem_erase_sourceOf (hparts : ∀ p ∈ ps, p.IsTypePart) (hlaid : ∀ p ∈ ps, p.IsLaid)
    (haside : ∃ p ∈ ps, p.IsAside) : '@' ∈ erase 0 (sourceOf ps) ∨ '/' ∈ erase 0 (sourceOf ps) := by
  induction ps with
  | nil => simp at haside
  | cons p ps ih =>
      rw [List.forall_mem_cons] at hparts hlaid
      rw [List.exists_mem_cons_iff] at haside
      by_cases hp : p.IsAside
      · have hsign {sign : Char} (hhead : p.text.head? = some sign)
            (hplain : sign ≠ '<' ∧ sign ≠ '>' ∧ isWhitespace sign = false) :
            sign ∈ erase 0 (sourceOf (p :: ps)) := by
          obtain ⟨text, htext⟩ := List.head?_eq_some_iff.1 hhead
          rw [sourceOf, source_eq, List.append_assoc, erase_blanks hlaid.1.blank, htext,
            List.cons_append, erase_cons, if_pos ⟨rfl, hplain⟩]
          exact List.mem_cons_self
        exact hp.head.imp (hsign · (by decide)) (hsign · (by decide))
      · rw [sourceOf, erase_source hparts.1 hlaid.1 hp]
        exact (ih hparts.2 hlaid.2 (haside.resolve_left hp)).imp (List.mem_append_right _)
          (List.mem_append_right _)

theorem isAside_iff (h : p.IsTypePart) : p.IsAside ↔ p.isMarkup ∨ p.isComment := by
  refine ⟨fun haside => haside.kind, fun hkind => ?_⟩
  cases h with
  | name hname _ => simp [isMarkup, isComment, eq_of_beq hname] at hkind
  | dot hdot _ => simp [isMarkup, isComment, hdot] at hkind
  | arguments harguments => simp [isMarkup, isComment, harguments.kind] at hkind
  | aside haside => exact haside

end Syntax.Node

namespace Lowering

open Node

variable {n m p type : Node}

/-! ### The reference to a type -/

/-- Type arguments at the end of a type make no difference to what it refers to. The rest of it is read
as text. -/
theorem exists_core (h : n.IsNamed) : ∃ m first, m.IsNamed ∧ m.typeParts = first :: n.innerParts ∧
    first.isTypeName ∧ m.typeNames = n.typeNames ∧ reference? n = TypeReference.parse (textOf m) := by
  induction h with
  | @name role gap text hspells =>
      have hparts : (leaf .typeIdentifier role gap text false).typeParts =
          leaf .typeIdentifier role gap text false ::
            (leaf .typeIdentifier role gap text false).innerParts := rfl
      refine ⟨_, _, .name hspells, hparts, rfl, rfl, ?_⟩
      rw [reference?, textOf, text_leaf]
      rfl
  | @dotted role role' role'' broken gap gap' text base before after hbase hbefore hafter hspells _ =>
      obtain ⟨first, rest, hparts, hfirst, -⟩ := hbase.exists_first
      refine ⟨_, first, .dotted hbase hbefore hafter hspells, ?_, hfirst, rfl, ?_⟩
      · rw [innerParts, typeParts_dotted hbefore hafter rfl rfl, hparts]
        exact congrArg (first :: ·) (afterFirst_concat hfirst rfl).symm
      · rw [reference?_branch]
  | @generic role broken base arguments before hbase hbefore harguments ih =>
      obtain ⟨m, first, hm, hparts, hfirst, hnames, hreference⟩ := ih
      obtain ⟨first', rest, hbaseParts, hfirst', -⟩ := hbase.exists_first
      refine ⟨m, first, hm, ?_, hfirst, ?_, ?_⟩
      · rw [hparts, innerParts, innerParts, typeParts_generic hbefore harguments, hbaseParts,
          afterFirst_append_right hfirst' (notName_arguments hbefore harguments)]
      · rw [hnames, typeNames_generic hbefore harguments]
      · rw [reference?_branch, ← hreference, List.cons_append, List.find?_cons_of_pos
          (isNamed_of_isNamed hbase), Option.map_some, Option.getD_some]

theorem isSpelled_text (h : p.IsTypePart) (hname : p.isTypeName) : TypeReference.IsSpelled p.text := by
  cases h with
  | name _ hspelled => exact hspelled
  | dot hdot _ => simp [isTypeName, hdot] at hname
  | arguments harguments => simp [isTypeName, harguments.kind] at hname
  | aside haside => rw [haside.isPlain.name] at hname; cases hname

theorem isSpelled_of_mem_typeNames (h : n.IsNamed) :
    ∀ name ∈ n.typeNames, TypeReference.IsSpelled name := by
  intro name hname
  obtain ⟨p, hp, rfl⟩ := List.mem_map.1 hname
  obtain ⟨hpart, hname⟩ := List.mem_filter.1 hp
  exact isSpelled_text (h.isTypePart p hpart) hname

/-- Whether a reference is the one to a named type: its last name with the others as the qualifier. This
is so if and only if neither an annotation nor a comment stands between the first name and the last, where
there is only white space beside the parts of the type and the brackets match even in those type arguments
that have annotations or comments. -/
structure IsReferenceTo (r : TypeReference) (type : Node) : Prop where
  named : type.typeNames ≠ []
  exact_iff : ∀ outer name, type.typeNames = outer ++ [name] → (∀ p ∈ type.innerParts, p.IsLaid) →
    (r = .ofNames outer name ↔ ∀ p ∈ type.innerParts, ¬ p.isMarkup ∧ ¬ p.isComment)

/-- There is a reference to a named type, and it is the one to this type. -/
theorem exists_isReferenceTo (h : n.IsNamed) : ∃ r, reference? n = some r ∧ IsReferenceTo r n := by
  obtain ⟨m, first, hm, hparts, hfirst, hnames, hreference⟩ := exists_core h
  have htypeParts := hm.isTypePart
  rw [hparts, List.forall_mem_cons] at htypeParts
  have hspelled := isSpelled_text htypeParts.1 hfirst
  have herased : TypeReference.erase 0 (textOf m).toList =
      first.text ++ TypeReference.erase 0 (sourceOf n.innerParts) := by
    rw [textOf, String.toList_ofList, hm.text_eq hparts,
      TypeReference.erase_append_of_plain hspelled.plain]
  obtain ⟨r, hread⟩ := hspelled.exists_parse herased
  refine ⟨r, hreference.trans hread, hnames ▸ hm.flatMap_spelling.1, fun outer name hlast hlaid => ?_⟩
  rw [← hnames] at hlast
  have hallSpelled := hlast ▸ isSpelled_of_mem_typeNames hm
  have hright : r = .ofNames outer name ↔
      trimEnds (· == '.') (first.text ++ TypeReference.erase 0 (sourceOf n.innerParts)) =
        ['.'].intercalate (outer ++ [name]) := by
    rw [← herased, ← TypeReference.parse_eq_ofNames_iff hallSpelled, hread, Option.some_inj]
  have hasides : (∀ p ∈ n.innerParts, ¬ p.isMarkup ∧ ¬ p.isComment) ↔
      ∀ p ∈ n.innerParts, ¬ p.IsAside :=
    forall₂_congr fun p hp => by rw [isAside_iff (htypeParts.2 p hp), not_or]
  rw [hright, hasides]
  constructor
  · -- The sign that something aside begins with is neither a dot nor of a name.
    intro htrimmed p hp haside
    obtain hsign | hsign := mem_erase_sourceOf htypeParts.2 hlaid ⟨p, hp, haside⟩
    all_goals
      have hplain := TypeReference.mem_of_trimEnds_eq hallSpelled htrimmed
        (List.mem_append_right first.text hsign)
      exact absurd hplain (by decide)
  · intro haside
    rw [erase_sourceOf htypeParts.2 hlaid haside, ← spelling_name hfirst, ← List.flatMap_cons, ← hparts,
      hm.flatMap_spelling.2, hlast]
    exact TypeReference.trimEnds_eq_self (TypeReference.head?_intercalate_ne hallSpelled)
      (TypeReference.getLast?_intercalate_ne (hallSpelled name (List.mem_append_right _ List.mem_cons_self)))

/-! ### Lists of types -/

/-- The named types that a class declaration lists as implemented. -/
def listedTypes (n : Node) : List Node :=
  (child? n .interfaces).toList.flatMap fun clause =>
    (clause.children.filter (isConstruct .typeList)).flatMap fun list =>
      list.children.filter fun type => type.typeNames ≠ []

theorem typeNames_of_isPlain (h : n.IsPlain) : n.typeNames = [] := by
  rw [typeNames, typeParts_of_isTypeFrame h.frame, namesIn_eq_nil (List.forall_mem_singleton.2 h.name)]

theorem reference?_of_isPlain (h : n.IsPlain) : reference? n = none := by
  cases n with
  | leaf kind role gap text missing =>
      have hname := h.name
      rw [isTypeName, Node.kind] at hname
      rw [reference?, hname]
      rfl
  | branch kind role broken ns =>
      have hframe := h.frame
      rw [reference?_branch]
      split <;> first | rfl | cases hframe

/-- The annotations before a type make no difference to what it refers to. -/
theorem annotated_eq {role : Option Role} {broken : Bool} {before : List Node}
    (hbefore : ∀ p ∈ before, p.IsAside) (hm : m.IsNamed ∨ m.IsPlain) :
    (branch (.construct .annotatedType) role broken (before ++ [m])).typeNames = m.typeNames ∧
      (branch (.construct .annotatedType) role broken (before ++ [m])).innerParts = m.innerParts ∧
      reference? (branch (.construct .annotatedType) role broken (before ++ [m])) = reference? m := by
  have hparts : (branch (.construct .annotatedType) role broken (before ++ [m])).typeParts =
      before ++ m.typeParts := by
    rw [typeParts_frame rfl, List.flatMap_append, flatMap_typeParts_of_isAside hbefore,
      List.flatMap_singleton]
  have hnone (p : Node) (hp : p ∈ before) : p.isTypeName = false := (hbefore p hp).isPlain.name
  refine ⟨?_, ?_, ?_⟩
  · rw [typeNames, hparts, namesIn_append, namesIn_asides hbefore, List.nil_append, typeNames]
  · rw [innerParts, hparts, afterFirst_append_left hnone, innerParts]
  · rw [reference?_branch]
    obtain hnamed | hplain := hm
    · rw [List.filter_append, List.filter_cons_of_pos (isNamed_of_isNamed hnamed), List.filter_nil,
        List.getLast?_concat, Option.map_some, Option.getD_some]
    · -- None of the children is a named type.
      rw [reference?_of_isPlain hplain]
      cases hlast : ((before ++ [m]).filter (·.isNamed)).getLast? with
      | none => rfl
      | some p =>
          have hp := List.mem_of_mem_filter (List.mem_of_getLast? hlast)
          rw [List.mem_append, List.mem_singleton] at hp
          obtain hp | rfl := hp
          · exact reference?_of_isPlain (hbefore p hp).isPlain
          · exact reference?_of_isPlain hplain

/-- What stands in a list of types is referred to if it is a named type. -/
theorem reference?_cases (h : n.IsEntry) : (n.typeNames = [] ∧ reference? n = none) ∨
    (n.isNamed ∧ ∃ r, reference? n = some r ∧ IsReferenceTo r n) := by
  cases h with
  | plain h => exact Or.inl ⟨typeNames_of_isPlain h, reference?_of_isPlain h⟩
  | named h => exact Or.inr ⟨isNamed_of_isNamed h, exists_isReferenceTo h⟩
  | annotated hbefore hm =>
      obtain ⟨hnames, hinner, hreference⟩ := annotated_eq hbefore hm
      rw [hnames, hreference]
      obtain hnamed | hplain := hm
      · obtain ⟨r, hr, hnamed, hexact⟩ := exists_isReferenceTo hnamed
        exact Or.inr ⟨rfl, r, hr, by rwa [hnames], by rwa [hnames, hinner]⟩
      · exact Or.inl ⟨typeNames_of_isPlain hplain, reference?_of_isPlain hplain⟩

theorem forall₂_references {ns : List Node} (h : ∀ n ∈ ns, n.IsEntry) :
    List.Forall₂ IsReferenceTo ((ns.filter (·.isNamed)).filterMap reference?)
      (ns.filter fun type => type.typeNames ≠ []) := by
  induction ns with
  | nil => exact .nil
  | cons n ns ih =>
      rw [List.forall_mem_cons] at h
      have hrest := ih h.2
      obtain ⟨hnone, hreference⟩ | ⟨hnamed, r, hreference, hr⟩ := reference?_cases h.1
      · have hskipped : ((n :: ns).filter (·.isNamed)).filterMap reference? =
            (ns.filter (·.isNamed)).filterMap reference? := by
          rw [List.filter_cons]
          split
          · rw [List.filterMap_cons_none hreference]
          · rfl
        rwa [hskipped, List.filter_cons_of_neg (by simpa using hnone)]
      · rw [List.filter_cons_of_pos hnamed, List.filterMap_cons_some hreference,
          List.filter_cons_of_pos (by simpa using hr.named)]
        exact .cons hr hrest

/-- The references of a declaration are those to the named types that it lists, one for each of them. -/
theorem forall₂_implemented (h : n.IsDerived) :
    List.Forall₂ IsReferenceTo (((child? n .interfaces).map implemented).getD []) (listedTypes n) := by
  rw [listedTypes]
  cases hclause : child? n .interfaces with
  | none => exact .nil
  | some clause =>
      have hderived := h.children clause (mem_children_of_child? hclause).1
      rw [Option.map_some, Option.getD_some, implemented, Option.toList_some, List.flatMap_singleton]
      have hlists : List.Forall₂ (fun list list' => list = list' ∧ list ∈ clause.children ∧
          isConstruct .typeList list) (clause.children.filter (isConstruct .typeList))
            (clause.children.filter (isConstruct .typeList)) :=
        List.forall₂_same.2 fun list hlist => ⟨rfl, List.mem_filter.1 hlist⟩
      refine List.rel_flatMap hlists ?_
      rintro list _ ⟨rfl, hlist, hkind⟩
      exact forall₂_references fun m hm =>
        (hderived.children list hlist).isEntry (kind_of_isConstruct hkind) hm

theorem isDerived_of_descend? {path : List Nat} (h : n.IsDerived) (hm : n.descend? path = some m) :
    m.IsDerived := by
  induction path generalizing n with
  | nil =>
      cases hm
      exact h
  | cons i path ih =>
      obtain ⟨c, hc, hm⟩ := Option.bind_eq_some_iff.1 hm
      exact ih (h.children c (List.mem_of_getElem? hc)) hm

theorem isDerived_of_mem_located {root : Node} (hroot : ∀ n ∈ root.children, n.IsDerived)
    {path : List Nat} (hn : (path, n) ∈ root.located) : n.IsDerived := by
  obtain ⟨hpath, hplace⟩ := Node.mem_located_iff.1 hn
  obtain ⟨i, rest, rfl⟩ := List.exists_cons_of_ne_nil hpath
  obtain ⟨c, hc, hplace⟩ := Option.bind_eq_some_iff.1 hplace
  exact isDerived_of_descend? (hroot c (List.mem_of_getElem? hc)) hplace

theorem forall₂_types {root : Node} (hroot : ∀ n ∈ root.children, n.IsDerived) :
    List.Forall₂
      (fun l t => t.kind = .classType → List.Forall₂ IsReferenceTo t.implemented (listedTypes l.2))
      (declarations root) (SourceUnit.ofNode root).types := by
  have hboth := (List.forall₂_and_left _ _).2
    ⟨fun l hl => isDerived_of_mem_located hroot (List.mem_of_mem_filter hl), forall₂_declarations root⟩
  refine hboth.imp fun l t hl hclass => ?_
  rw [(declares_of_declaredType? hl.2).implemented, hclass]
  exact forall₂_implemented hl.1

end Lowering

/-! ### Source units -/

namespace SourceUnit

open Lowering Node

theorem implemented_of_isWhole {t : Tree} {u : SourceUnit} (ht : t.IsWhole)
    (h : ofRoot false (.ofRoot t) = .ok u) : List.Forall₂
      (fun l t => t.kind = .classType → List.Forall₂ IsReferenceTo t.implemented (listedTypes l.2))
      (declarations (.ofRoot t)) u.types := by
  obtain ⟨rfl, hderived⟩ := isDerived_of_isWhole ht h
  exact forall₂_types hderived

/-- A class has one reference for each named type that it lists, in source order and whatever text without
errors it was read from. The name and the qualifier are the names of the type, unless there is an annotation
or a comment between them. -/
theorem implemented_of_ofText {text : List Char} {u : SourceUnit} (h : ofText false text = .ok u) :
    List.Forall₂
      (fun l t => t.kind = .classType → List.Forall₂ IsReferenceTo t.implemented (listedTypes l.2))
      (declarations (.ofRoot (Syntax.parse text))) u.types :=
  implemented_of_isWhole (isWhole_parse text) h

set_option maxRecDepth 100000 in
theorem ofText_listed :
    let text := "class C implements O<T>.I,a.@A B{}".toList
    ofText false text =
        .ok ⟨none, [⟨"C", .classType, [], [], [⟨some "O", "I"⟩, ⟨some "a", "@AB"⟩]⟩]⟩ ∧
      (declarations (.ofRoot (Syntax.parse text))).map (fun l => (listedTypes l.2).map Node.typeNames) =
        [[["O".toList, "I".toList], ["a".toList, "B".toList]]] := by
  decide +kernel

/-- Two types of two names each, one with type arguments within and one with an annotation. -/
theorem implemented_of_ofText_generic :
    let text := "class C implements O<T>.I,a.@A B{}".toList
    let u : SourceUnit := ⟨none, [⟨"C", .classType, [], [], [⟨some "O", "I"⟩, ⟨some "a", "@AB"⟩]⟩]⟩
    ofText false text = .ok u ∧ List.Forall₂
      (fun l t => t.kind = .classType → List.Forall₂ IsReferenceTo t.implemented (listedTypes l.2))
      (declarations (.ofRoot (Syntax.parse text))) u.types := by
  intro text u
  have hread : ofText false text = .ok u := ofText_listed.1
  exact ⟨hread, implemented_of_ofText hread⟩

/-- The annotation of the last name gets into the reference. -/
theorem implemented_annotated_name :
    let text := "class C implements O<T>.I,a.@A B{}".toList
    (declarations (.ofRoot (Syntax.parse text))).map (fun l => (listedTypes l.2).map Node.typeNames) =
        [[["O".toList, "I".toList], ["a".toList, "B".toList]]] ∧
      ofText false text = .ok ⟨none, [⟨"C", .classType, [], [],
        [.ofNames ["O".toList] "I".toList, .ofNames ["a".toList] "@AB".toList]⟩]⟩ ∧
      TypeReference.ofNames ["a".toList] "@AB".toList ≠ .ofNames ["a".toList] "B".toList := by
  intro text
  exact ⟨ofText_listed.2, ofText_listed.1, by decide⟩

end SourceUnit

end EndpointAtlas
