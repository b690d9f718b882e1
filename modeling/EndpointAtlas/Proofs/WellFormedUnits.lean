import EndpointAtlas.Declaration.Source
import EndpointAtlas.Proofs.Comments
import EndpointAtlas.Proofs.DerivedNodes
import EndpointAtlas.Proofs.Discovery
import EndpointAtlas.Proofs.Leniency
import EndpointAtlas.Proofs.TypeReference
import EndpointAtlas.Proofs.TypeText

/-!
# What a source text declares is well formed

The names of a source unit are no blanks and its types are printed as types are, whatever text without
errors it was read from. Some of this the lowering takes care of itself. The rest holds because a tree
without repairs follows the grammar, where names are identifiers and a type ends in a word or a bracket.
-/

namespace EndpointAtlas

open Text Syntax Lowering

/-! ### Well-formed declarations -/

/-- A type expression as it is printed: white space is one space between two words. -/
structure TypeText.IsPrinted (s : String) : Prop where
  nonempty : s ≠ ""
  spaces : ∀ c ∈ s.toList, isWhitespace c → c = ' '
  single : ¬ [' ', ' '] <:+: s.toList
  printed : TypeText.print s.toList = s.toList

structure Annotation.WellFormed (a : Annotation) : Prop where
  name_nonempty : a.name ≠ ""
  name_plain : ∀ c ∈ a.name.toList, isWhitespace c = false

structure Method.WellFormed (m : Method) : Prop where
  name_nonempty : m.name ≠ ""
  returnType : TypeText.IsPrinted m.returnType
  parameters : ∀ p ∈ m.parameters, TypeText.IsPrinted p.type
  annotations : ∀ a ∈ m.annotations, a.WellFormed

structure DeclaredType.WellFormed (t : DeclaredType) : Prop where
  name_nonempty : t.name ≠ ""
  name_plain : '.' ∉ t.name.toList
  annotations : ∀ a ∈ t.annotations, a.WellFormed
  methods : ∀ m ∈ t.methods, m.WellFormed
  implemented : ∀ r ∈ t.implemented, r.WellFormed
  interface : t.isInterface → t.implemented = []

structure SourceUnit.WellFormed (u : SourceUnit) : Prop where
  package_nonempty : u.package ≠ some ""
  package_plain : ∀ p, u.package = some p → ∀ c ∈ p.toList, isWhitespace c = false
  types : ∀ t ∈ u.types, t.WellFormed

/-! ### Texts that are compacted or printed -/

theorem Text.plain_of_mem_compact {c : Char} {cs : List Char} (h : c ∈ compact cs) :
    isWhitespace c = false := by
  rw [compact, List.mem_filter, Bool.not_eq_true'] at h
  exact h.2

theorem TypeText.isPrinted_ofList {cs : List Char} (hne : cs ≠ [])
    (hprinted : TypeText.print cs = cs) : IsPrinted (.ofList cs) where
  nonempty := by rwa [Ne, String.ofList_eq_empty_iff]
  spaces c hc hblank := by
    rw [String.toList_ofList, ← hprinted] at hc
    exact eq_space_of_mem_layout hc hblank
  single := by
    rw [String.toList_ofList, ← hprinted]
    exact not_two_spaces cs
  printed := by rwa [String.toList_ofList]

namespace Lowering

variable {n m : Node} {r : Grammar.Role} {c : Grammar.Construct}

theorem isPrinted_typeText (h : ∃ c ∈ n.text, isWhitespace c = false) :
    TypeText.IsPrinted (typeText n) := by
  obtain ⟨c, hmem, hc⟩ := h
  exact TypeText.isPrinted_ofList (TypeText.print_ne_nil hmem hc) (TypeText.print_print n.text)

theorem isPrinted_dimensioned {type : Node} (h : EndsFirm type.text) :
    TypeText.IsPrinted (dimensioned n type) := by
  obtain ⟨c, hmem, hc⟩ := h.exists_mem
  obtain ⟨init, last, htext, hlast, hcomma⟩ := h
  rw [dimensioned]
  split
  · next dimensions _ =>
    have hboth := TypeText.print_append_print init hlast hcomma dimensions.text
    rw [← htext] at hboth
    rw [typeText, typeText, ← String.ofList_append]
    refine TypeText.isPrinted_ofList ?_ hboth
    exact List.append_ne_nil_of_left_ne_nil (TypeText.print_ne_nil hmem hc) _
  · exact isPrinted_typeText ⟨c, hmem, hc⟩

theorem mem_children_of_child? (h : child? n r = some m) : m ∈ n.children ∧ m.role = some r := by
  rw [child?] at h
  exact ⟨List.mem_of_find?_eq_some h, by simpa using List.find?_some h⟩

theorem kind_of_isConstruct (h : isConstruct c n) : n.kind = .construct c := beq_iff_eq.1 h

/-! ### Annotations and references -/

theorem wellFormed_markup? : ∀ a ∈ markup? n, a.WellFormed := by
  intro a ha
  rw [markup?] at ha
  split at ha
  · split at ha
    · next name _ =>
      dsimp only at ha
      split at ha
      · cases ha
      · next hempty =>
        cases ha
        refine ⟨by simpa using hempty, fun c hc => ?_⟩
        rw [compactText, String.toList_ofList] at hc
        exact plain_of_mem_compact hc
    · cases ha
  · cases ha

theorem wellFormed_annotations : ∀ a ∈ annotations n, a.WellFormed := by
  intro a ha
  obtain ⟨c, -, ha⟩ := List.mem_flatMap.1 ha
  split at ha
  · obtain ⟨d, -, hd⟩ := List.mem_filterMap.1 ha
    exact wellFormed_markup? a hd
  · exact wellFormed_markup? a (Option.mem_toList.1 ha)

mutual

theorem wellFormed_reference? (n : Node) : ∀ r ∈ reference? n, r.WellFormed := by
  match n with
  | .leaf kind _ _ text _ =>
      intro r hr
      rw [reference?] at hr
      split at hr
      · exact TypeReference.wellFormed_of_parse hr
      · cases hr
  | .branch kind role broken ns =>
      intro r hr
      rw [reference?.eq_def] at hr
      dsimp only at hr
      split at hr
      · exact TypeReference.wellFormed_of_parse hr
      · exact wellFormed_firstReference? ns r hr
      · exact wellFormed_lastReference? ns none (fun _ h => nomatch h) r hr
      · cases hr

theorem wellFormed_firstReference? (ns : List Node) : ∀ r ∈ firstReference? ns, r.WellFormed := by
  match ns with
  | [] =>
      intro r hr
      cases hr
  | n :: ns =>
      rw [firstReference?]
      split
      · exact wellFormed_reference? n
      · exact wellFormed_firstReference? ns

theorem wellFormed_lastReference? (ns : List Node) (found : Option TypeReference)
    (hfound : ∀ r ∈ found, r.WellFormed) : ∀ r ∈ lastReference? ns found, r.WellFormed := by
  match ns with
  | [] => exact hfound
  | n :: ns =>
      rw [lastReference?]
      refine wellFormed_lastReference? ns _ ?_
      split
      · exact wellFormed_reference? n
      · exact hfound

end

theorem wellFormed_implemented : ∀ r ∈ implemented n, r.WellFormed := by
  intro r hr
  obtain ⟨list, -, hlist⟩ := List.mem_flatMap.1 hr
  obtain ⟨m, -, hm⟩ := List.mem_filterMap.1 hlist
  exact wellFormed_reference? m r hm

/-! ### Methods -/

theorem endsFirm_of_child? (h : n.IsDerived) (hchild : child? n r = some m) (hr : r.isFirm) :
    EndsFirm m.text := by
  obtain ⟨hmem, hrole⟩ := mem_children_of_child? hchild
  exact h.endsFirm hmem hrole hr

theorem isPrinted_spreadParameter? (h : n.IsDerived) (hkind : isConstruct .spreadParameter n) :
    ∀ p ∈ spreadParameter? n, TypeText.IsPrinted p.type := by
  intro p hp
  rw [spreadParameter?_eq] at hp
  obtain ⟨type, htype, rfl⟩ := Option.map_eq_some_iff.1 hp
  have hkept := List.find?_some htype
  simp only [Bool.and_eq_true, Bool.not_eq_true'] at hkept
  have hother {c : Grammar.Construct} (hc : isConstruct c type = false) : type.kind ≠ .construct c :=
    fun heq => by simp [isConstruct, heq] at hc
  apply isPrinted_typeText
  exact h.exists_mem_spread (kind_of_isConstruct hkind) (List.mem_of_find?_eq_some htype)
    (hother hkept.1.2) (hother hkept.2)

theorem isPrinted_parameter? (h : n.IsDerived) : ∀ p ∈ parameter? n, TypeText.IsPrinted p.type := by
  intro p hp
  rw [parameter?] at hp
  split at hp
  · obtain ⟨type, htype, rfl⟩ := Option.map_eq_some_iff.1 hp
    exact isPrinted_dimensioned (endsFirm_of_child? h htype rfl)
  · split at hp
    · next hspread => exact isPrinted_spreadParameter? h hspread p hp
    · cases hp

theorem wellFormed_method? (h : n.IsDerived) : ∀ m ∈ method? n, m.WellFormed := by
  intro m hm
  rw [method?] at hm
  split at hm
  · next name type hname htype =>
    cases hm
    refine ⟨?_, isPrinted_dimensioned (endsFirm_of_child? h htype rfl), ?_, wellFormed_annotations⟩
    · obtain ⟨c, hc, -⟩ := (endsFirm_of_child? h hname rfl).exists_mem
      rw [textOf, Ne, String.ofList_eq_empty_iff]
      exact List.ne_nil_of_mem hc
    · cases hparameters : child? n .parameters with
      | none => exact List.forall_mem_nil _
      | some ps =>
          intro p hp
          obtain ⟨d, hd, hparameter⟩ := List.mem_filterMap.1 hp
          have hderived := h.children ps (mem_children_of_child? hparameters).1
          exact isPrinted_parameter? (hderived.children d hd) p hparameter
  · cases hm

theorem wellFormed_methods (h : n.IsDerived) : ∀ m ∈ methods n, m.WellFormed := by
  intro m hm
  obtain ⟨c, hc, hmethod⟩ := List.mem_filterMap.1 hm
  split at hmethod
  · exact wellFormed_method? (h.children c hc) m hmethod
  · cases hmethod

/-! ### Types -/

theorem wellFormed_declaredType? (h : n.IsDerived) : ∀ t ∈ declaredType? n, t.WellFormed := by
  have hmethods : ∀ m ∈ ((child? n .body).map methods).getD [], m.WellFormed := by
    cases hbody : child? n .body with
    | none => exact List.forall_mem_nil _
    | some body =>
        exact wellFormed_methods (h.children body (mem_children_of_child? hbody).1)
  have himplemented : ∀ r ∈ ((child? n .interfaces).map implemented).getD [], r.WellFormed := by
    cases child? n .interfaces with
    | none => exact List.forall_mem_nil _
    | some clause => exact wellFormed_implemented
  have hname (hkind : n.kind = .construct .classDeclaration ∨
      n.kind = .construct .interfaceDeclaration) : '.' ∉ (nameOrEmpty n).toList := by
    rw [nameOrEmpty]
    cases hchild : child? n .name with
    | none => exact List.not_mem_nil
    | some name =>
        obtain ⟨hmem, hrole⟩ := mem_children_of_child? hchild
        intro hdot
        rw [Option.map_some, Option.getD_some, textOf, String.toList_ofList] at hdot
        have hpart := h.identifier_name hkind hmem hrole _ hdot
        exact absurd rfl (ne_of_isIdentifierPart hpart).1
  intro t ht
  have hdeclares := declares_of_declaredType? ht
  have hkind : n.kind = .construct .classDeclaration ∨ n.kind = .construct .interfaceDeclaration := by
    rw [hdeclares.kind]
    cases t.kind
    · exact Or.inl rfl
    · exact Or.inr rfl
  refine ⟨hdeclares.name_nonempty, hdeclares.name ▸ hname hkind,
    hdeclares.annotations ▸ wellFormed_annotations, hdeclares.methods ▸ hmethods, ?_, ?_⟩
  · rw [hdeclares.implemented]
    cases t.kind with
    | classType => exact himplemented
    | interfaceType => exact List.forall_mem_nil _
  · intro hinterface
    rw [hdeclares.implemented, beq_iff_eq.1 hinterface]

theorem wellFormed_declaredTypes (h : n.IsDerived) : ∀ t ∈ declaredTypes n, t.WellFormed := by
  induction n using Node.children_induction with
  | step n ih =>
  intro t ht
  cases n with
  | leaf _ _ _ _ _ => cases ht
  | branch kind role broken ns =>
      rw [declaredTypes, List.mem_append, Option.mem_toList, declaredTypesOf_eq_flatMap,
        List.mem_flatMap] at ht
      obtain ht | ⟨c, hc, ht⟩ := ht
      · exact wellFormed_declaredType? h t ht
      · exact ih c hc (h.children c hc) t ht

/-! ### Packages -/

theorem plain_packageName (n : Node) : ∀ c ∈ (packageName n).toList, isWhitespace c = false := by
  intro c hc
  rw [packageName] at hc
  cases hname : n.children.find? fun c => isConstruct .scopedIdentifier c || isIdentifier c with
  | none =>
      rw [hname] at hc
      cases hc
  | some name =>
      rw [hname, Option.map_some, Option.getD_some, compactText, String.toList_ofList] at hc
      exact plain_of_mem_compact hc

theorem plain_of_package? {root : Node} {p : String} (h : package? root = some p) :
    p ≠ "" ∧ ∀ c ∈ p.toList, isWhitespace c = false := by
  rw [package?] at h
  obtain ⟨hmem, hne⟩ := List.mem_filter.1 (List.mem_of_getLast? h)
  obtain ⟨n, -, rfl⟩ := List.mem_map.1 hmem
  exact ⟨by simpa using hne, plain_packageName n⟩

end Lowering

namespace SourceUnit

/-- A tree that is read strictly is derived below its root. -/
theorem isDerived_of_isWhole {t : Tree} {u : SourceUnit} (ht : t.IsWhole)
    (h : ofRoot false (.ofRoot t) = .ok u) :
    u = .ofNode (.ofRoot t) ∧ ∀ n ∈ (Node.ofRoot t).children, n.IsDerived := by
  rw [ofRoot] at h
  split at h
  · cases h
  next hbroken =>
  cases h
  exact ⟨rfl, Node.isDerived_of_isWhole ht (by simpa using hbroken)⟩

theorem wellFormed_of_isWhole {t : Tree} {u : SourceUnit} (ht : t.IsWhole)
    (h : ofRoot false (.ofRoot t) = .ok u) : u.WellFormed := by
  obtain ⟨rfl, hderived⟩ := isDerived_of_isWhole ht h
  refine ⟨fun hp => (plain_of_package? hp).1 rfl, fun p hp => (plain_of_package? hp).2, ?_⟩
  intro t ht
  rw [ofNode, declaredTypesOf_eq_flatMap] at ht
  obtain ⟨n, hn, ht⟩ := List.mem_flatMap.1 ht
  exact wellFormed_declaredTypes (hderived n hn) t ht

/-- Every unit that a text without errors is read as is well formed. -/
theorem wellFormed_of_ofText {text : List Char} {u : SourceUnit} (h : ofText false text = .ok u) :
    u.WellFormed :=
  wellFormed_of_isWhole (isWhole_parse text) h

set_option maxRecDepth 100000 in
theorem ofText_dimensions : ofText false "class A{B f()[];}".toList =
    .ok ⟨none, [⟨"A", .classType, [], [⟨"f", "B[]", [], []⟩], []⟩]⟩ := by
  decide +kernel

/-- A type with dimensions after the parameters, printed in two pieces. -/
theorem wellFormed_of_ofText_dimensions :
    let text := "class A{B f()[];}".toList
    let u : SourceUnit := ⟨none, [⟨"A", .classType, [], [⟨"f", "B[]", [], []⟩], []⟩]⟩
    ofText false text = .ok u ∧ u.WellFormed := by
  intro text u
  exact ⟨ofText_dimensions, wellFormed_of_ofText ofText_dimensions⟩

end SourceUnit

end EndpointAtlas
