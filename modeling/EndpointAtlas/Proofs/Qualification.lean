import EndpointAtlas.Proofs.Dotted
import EndpointAtlas.Proofs.Irrelevance

/-!
# Qualified annotation names

An annotation counts by its simple name. A qualifier put before the name, or before that of any other
annotation in the source files, changes neither what the annotation marks nor the analysis.
-/

namespace EndpointAtlas

open Text

/-! ### Simple names -/

/-- Whether `simple` is what `name` has after its last dot, or all of it where there is no dot. -/
def IsSimpleName (simple name : String) : Prop :=
  '.' ∉ simple.toList ∧ (name = simple ∨ ∃ q : String, name = q ++ "." ++ simple)

theorem Annotation.simpleName_eq_iff {a : Annotation} {simple : String} :
    a.simpleName = simple ↔ IsSimpleName simple a.name := by
  have hqualified : (∃ q : List Char, a.name.toList = q ++ '.' :: simple.toList) ↔
      ∃ q : String, a.name = q ++ "." ++ simple := by
    constructor
    · rintro ⟨q, hq⟩
      refine ⟨.ofList q, String.toList_inj.1 ?_⟩
      rw [toList_qualified, String.toList_ofList]
      exact hq
    · rintro ⟨q, hq⟩
      refine ⟨q.toList, ?_⟩
      rw [hq, toList_qualified]
  unfold simpleName IsSimpleName
  rw [← String.toList_inj, String.toList_ofList, lastSegment_eq_iff, hqualified, String.toList_inj]

@[simp]
theorem Annotation.simpleName_qualified (q name : String) :
    (⟨q ++ "." ++ name⟩ : Annotation).simpleName = (⟨name⟩ : Annotation).simpleName := by
  unfold simpleName
  rw [toList_qualified, lastSegment_append]

/-! ### Marks -/

/-- What both vocabularies have in common: no mark is left out, each has a name of its own, and no name
has a dot. -/
class LawfulVocabulary (μ : Type) [Vocabulary μ] : Prop where
  mem_all (m : μ) : m ∈ (Vocabulary.all : List μ)
  eq_of_name (m n : μ) : Vocabulary.name m = Vocabulary.name n → m = n
  undotted (m : μ) : '.' ∉ (Vocabulary.name m).toList

instance : LawfulVocabulary ControllerMark where
  mem_all m := by cases m <;> decide
  eq_of_name m n := by cases m <;> cases n <;> decide
  undotted m := by cases m <;> decide

instance : LawfulVocabulary EndpointMark where
  mem_all m := by cases m <;> decide
  eq_of_name m n := by cases m <;> cases n <;> decide
  undotted m := by cases m <;> decide

section Marks

variable {μ : Type} [Vocabulary μ]

theorem Annotation.mark?_qualified (q name : String) :
    (⟨q ++ "." ++ name⟩ : Annotation).mark? μ = (⟨name⟩ : Annotation).mark? μ := by
  unfold mark?
  rw [simpleName_qualified]

variable [LawfulVocabulary μ] {m : μ} {a : Annotation}

theorem markNamed?_eq_some_iff {name : String} :
    markNamed? μ name = some m ↔ name = Vocabulary.name m := by
  unfold markNamed?
  constructor
  · intro h
    have hname := List.find?_some h
    exact (eq_of_beq hname).symm
  · rintro rfl
    cases hfound : (Vocabulary.all : List μ).find? fun n => Vocabulary.name n == Vocabulary.name m with
    | none =>
        have hmissed := List.find?_eq_none.1 hfound m (LawfulVocabulary.mem_all m)
        exact absurd (beq_self_eq_true _) hmissed
    | some n =>
        have hname := List.find?_some hfound
        rw [LawfulVocabulary.eq_of_name n m (eq_of_beq hname)]

theorem Annotation.mark?_eq_some_iff :
    a.mark? μ = some m ↔ IsSimpleName (Vocabulary.name m) a.name := by
  unfold mark?
  rw [markNamed?_eq_some_iff, simpleName_eq_iff]

/-- The mark looked for under the whole name, and only then under what follows its last dot. -/
def Annotation.markInTurn? (μ : Type) [Vocabulary μ] (a : Annotation) : Option μ :=
  (markNamed? μ a.name).orElse fun _ =>
    (splitLastDot a.name.toList).bind fun cut => markNamed? μ (.ofList cut.2)

/-- No name of a mark has a dot, so there is nothing to be found under the whole of a dotted name. -/
theorem Annotation.markInTurn?_eq (a : Annotation) : a.markInTurn? μ = a.mark? μ := by
  unfold markInTurn? mark? simpleName
  obtain hname | ⟨stem, ext, hname, hext⟩ := notMem_or_cut a.name.toList
  · rw [splitLastDot_of_notMem hname, lastSegment_of_notMem hname, String.ofList_toList]
    simp
  · have hwhole : markNamed? μ a.name = none := by
      rw [Option.eq_none_iff_forall_ne_some]
      intro m hm
      apply LawfulVocabulary.undotted m
      rw [← markNamed?_eq_some_iff.1 hm, hname]
      simp
    have hlast : lastSegment a.name.toList = ext :=
      lastSegment_eq_iff.2 ⟨hext, Or.inr ⟨stem, hname⟩⟩
    rw [hwhole, hlast, hname, splitLastDot_append stem hext]
    simp

end Marks

/-- Whether qualifiers make no difference to the marks of a vocabulary: an annotation has a mark exactly
if its simple name is that of the mark, in whichever way the mark is looked for. -/
structure SeesSimpleNames (μ : Type) [Vocabulary μ] : Prop where
  qualified : ∀ q name : String,
    (⟨q ++ "." ++ name⟩ : Annotation).mark? μ = (⟨name⟩ : Annotation).mark? μ
  simple : ∀ (a : Annotation) (m : μ),
    a.mark? μ = some m ↔ IsSimpleName (Vocabulary.name m) a.name
  inTurn : ∀ a : Annotation, a.markInTurn? μ = a.mark? μ

theorem seesSimpleNames (μ : Type) [Vocabulary μ] [LawfulVocabulary μ] : SeesSimpleNames μ where
  qualified := Annotation.mark?_qualified
  simple _ _ := Annotation.mark?_eq_some_iff
  inTurn := Annotation.markInTurn?_eq

/-! ### Source files with qualified names -/

inductive Annotation.Qualified (a : Annotation) : Annotation → Prop
  | same : Qualified a a
  | qualified (q : String) : Qualified a ⟨q ++ "." ++ a.name⟩

structure Method.Qualified (m n : Method) : Prop where
  annotations : List.Forall₂ Annotation.Qualified m.annotations n.annotations
  rest : { n with annotations := m.annotations } = m

structure DeclaredType.Qualified (t t' : DeclaredType) : Prop where
  annotations : List.Forall₂ Annotation.Qualified t.annotations t'.annotations
  methods : List.Forall₂ Method.Qualified t.methods t'.methods
  rest : { t' with annotations := t.annotations, methods := t.methods } = t

structure SourceUnit.Qualified (u v : SourceUnit) : Prop where
  types : List.Forall₂ DeclaredType.Qualified u.types v.types
  package : v.package = u.package

section Forall₂

variable {α β : Type} {R : α → α → Prop} {xs ys : List α}

theorem map_eq_of_forall₂ {f : α → β} (hf : ∀ x y, R x y → f y = f x) (h : List.Forall₂ R xs ys) :
    ys.map f = xs.map f := by
  induction h with
  | nil => rfl
  | cons hxy _ ih => rw [List.map_cons, List.map_cons, hf _ _ hxy, ih]

theorem filter_forall₂ {p : α → Bool} (hp : ∀ x y, R x y → p y = p x) (h : List.Forall₂ R xs ys) :
    List.Forall₂ R (xs.filter p) (ys.filter p) := by
  induction h with
  | nil => exact .nil
  | cons hxy _ ih =>
      rw [List.filter_cons, List.filter_cons, hp _ _ hxy]
      split
      · exact .cons hxy ih
      · exact ih

end Forall₂

theorem Annotation.Qualified.mark? {a b : Annotation} (h : a.Qualified b) (μ : Type) [Vocabulary μ] :
    b.mark? μ = a.mark? μ := by
  cases h with
  | same => rfl
  | qualified q => exact Annotation.mark?_qualified q a.name

namespace Method.Qualified

variable {m n : Method}

theorem isEndpoint (h : m.Qualified n) : n.isEndpoint = m.isEndpoint := by
  have hmarks : n.annotations.map (·.mark? EndpointMark) = m.annotations.map (·.mark? EndpointMark) :=
    map_eq_of_forall₂ (fun _ _ hab => hab.mark? EndpointMark) h.annotations
  have hany (as : List Annotation) : (as.any fun a => a.matchesAny EndpointMark.all) =
      (as.map (·.mark? EndpointMark)).any fun mark =>
        mark.any fun found => EndpointMark.all.contains found := by
    rw [List.any_map]
    apply congrArg (List.any as)
    funext a
    unfold Annotation.matchesAny
    rw [Function.comp_apply]
    cases a.mark? EndpointMark <;> rfl
  unfold Method.isEndpoint
  rw [hany, hany, hmarks]

theorem declaredEndpoint (h : m.Qualified n) : n.declaredEndpoint = m.declaredEndpoint := by
  rw [← h.rest]
  rfl

theorem inheritedEndpoint (h : m.Qualified n) (interface : String) :
    n.inheritedEndpoint interface = m.inheritedEndpoint interface := by
  rw [← h.rest]
  rfl

end Method.Qualified

namespace DeclaredType.Qualified

variable {t t' : DeclaredType}

theorem endpointMethods (h : t.Qualified t') :
    List.Forall₂ Method.Qualified t.endpointMethods t'.endpointMethods :=
  filter_forall₂ (fun _ _ hmn => hmn.isEndpoint) h.methods

theorem isInterface (h : t.Qualified t') : t'.isInterface = t.isInterface := by
  rw [← h.rest]
  rfl

theorem isController (h : t.Qualified t') : t'.isController = t.isController := by
  apply isController_congr
  · have hmarks : t'.annotations.map (·.mark? ControllerMark) =
        t.annotations.map (·.mark? ControllerMark) :=
      map_eq_of_forall₂ (fun _ _ hab => hab.mark? ControllerMark) h.annotations
    have hfound := congrArg (List.filterMap id) hmarks
    rwa [List.filterMap_map, List.filterMap_map] at hfound
  · have hendpoints : t'.methods.map (·.isEndpoint) = t.methods.map (·.isEndpoint) :=
      map_eq_of_forall₂ (fun _ _ hmn => hmn.isEndpoint) h.methods
    have hany := congrArg (·.any id) hendpoints
    simpa only [List.any_map, Function.id_comp] using hany

/-- An interface passes on the same endpoints. -/
theorem interfaceOutline (h : t.Qualified t') (lead : String) :
    t'.interfaceOutline lead = t.interfaceOutline lead := by
  have hname : t'.name = t.name := by rw [← h.rest]
  have hendpoints : t'.inheritedEndpoints = t.inheritedEndpoints := by
    unfold inheritedEndpoints
    rw [hname]
    exact map_eq_of_forall₂ (fun _ _ hmn => hmn.inheritedEndpoint t.name) h.endpointMethods
  unfold DeclaredType.interfaceOutline
  rw [hname, hendpoints]

/-- A controller has the same endpoints and references. -/
theorem controllerOutline (h : t.Qualified t') (lead : String) :
    t'.controllerOutline lead = t.controllerOutline lead := by
  have hname : t'.name = t.name := by rw [← h.rest]
  have himplemented : t'.implemented = t.implemented := by rw [← h.rest]
  have hendpoints : t'.endpointMethods.map (·.declaredEndpoint) =
      t.endpointMethods.map (·.declaredEndpoint) :=
    map_eq_of_forall₂ (fun _ _ hmn => hmn.declaredEndpoint) h.endpointMethods
  unfold DeclaredType.controllerOutline
  rw [hname, himplemented, hendpoints]

end DeclaredType.Qualified

namespace SourceUnit.Qualified

variable {u v : SourceUnit}

theorem lead (h : u.Qualified v) : v.lead = u.lead := by
  unfold SourceUnit.lead
  rw [h.package]

theorem interfaceOutlines (h : u.Qualified v) : v.interfaceOutlines = u.interfaceOutlines := by
  unfold SourceUnit.interfaceOutlines
  rw [h.lead]
  exact map_eq_of_forall₂ (fun _ _ htt => htt.interfaceOutline u.lead)
    (filter_forall₂ (fun _ _ htt => htt.isInterface) h.types)

theorem controllerOutlines (h : u.Qualified v) : v.controllerOutlines = u.controllerOutlines := by
  unfold SourceUnit.controllerOutlines
  rw [h.lead]
  exact map_eq_of_forall₂ (fun _ _ htt => htt.controllerOutline u.lead)
    (filter_forall₂ (fun _ _ htt => htt.isController) h.types)

end SourceUnit.Qualified

theorem Outline.ofUnits_qualified {us vs : List SourceUnit}
    (h : List.Forall₂ SourceUnit.Qualified us vs) : ofUnits vs = ofUnits us := by
  have hinterfaces : vs.map (·.interfaceOutlines) = us.map (·.interfaceOutlines) :=
    map_eq_of_forall₂ (fun _ _ huv => huv.interfaceOutlines) h
  have hcontrollers : vs.map (·.controllerOutlines) = us.map (·.controllerOutlines) :=
    map_eq_of_forall₂ (fun _ _ huv => huv.controllerOutlines) h
  unfold ofUnits
  rw [List.flatMap_def, List.flatMap_def, List.flatMap_def, List.flatMap_def, hinterfaces,
    hcontrollers, h.length_eq]

namespace Analysis

/-- In both vocabularies a mark is found by the simple name alone, so source files in which any
annotation names are qualified have the same analysis. -/
theorem qualification_invisible :
    SeesSimpleNames ControllerMark ∧ SeesSimpleNames EndpointMark ∧
      ∀ us vs : List SourceUnit, List.Forall₂ SourceUnit.Qualified us vs → ofUnits vs = ofUnits us :=
  ⟨seesSimpleNames ControllerMark, seesSimpleNames EndpointMark,
    fun _ _ h => Outline.analysis_congr (Outline.ofUnits_qualified h)⟩

/-- One name gets a qualifier with dots in it, one an empty qualifier, and one stays as it is. -/
theorem qualification_invisible_mixed :
    let find (a : String) : Method := ⟨"find", "User", [⟨"id", "Long"⟩], [⟨"Override"⟩, ⟨a⟩]⟩
    let api (a : String) : SourceUnit := ⟨some "a", [⟨"Api", .interfaceType, [], [find a], []⟩]⟩
    let web (a b : String) : SourceUnit :=
      ⟨some "b", [⟨"C", .classType, [⟨a⟩], [find b], [⟨none, "Api"⟩]⟩]⟩
    let us := [api "GetMapping", web "Service" "x.PostMapping"]
    let vs := [api "org.web.GetMapping", web ".Service" "x.PostMapping"]
    List.Forall₂ SourceUnit.Qualified us vs ∧ ofUnits vs = ofUnits us := by
  intro find api web us vs
  have hfind (q a : String) : (find a).Qualified (find (q ++ "." ++ a)) :=
    ⟨.cons .same (.cons (.qualified q) .nil), rfl⟩
  have hqualified : List.Forall₂ SourceUnit.Qualified us vs :=
    .cons ⟨.cons ⟨.nil, .cons (hfind "org.web" "GetMapping") .nil, rfl⟩ .nil, rfl⟩
      (.cons ⟨.cons ⟨.cons (.qualified "") .nil,
        .cons ⟨.cons .same (.cons .same .nil), rfl⟩ .nil, rfl⟩ .nil, rfl⟩ .nil)
  exact ⟨hqualified, qualification_invisible.2.2 us vs hqualified⟩

end Analysis

end EndpointAtlas
