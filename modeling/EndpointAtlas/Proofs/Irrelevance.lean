import EndpointAtlas.Proofs.Analysis
import Mathlib.Logic.Relation

/-!
# What the analysis does not look at

Of an interface the analysis sees its names and the endpoints it passes on, of a controller its name,
its own endpoints and its references, and of any other class nothing at all. Whatever is changed in the
source files without changing this outline leaves the analysis as it was.
-/

namespace EndpointAtlas

/-! ### The outline of source files -/

/-- What is seen of an interface. -/
structure InterfaceOutline where
  lead : String
  name : String
  endpoints : List Endpoint

/-- What is seen of a controller. -/
structure ControllerOutline where
  qualifiedName : String
  endpoints : List Endpoint
  implemented : List TypeReference

structure Outline where
  files : Nat
  interfaces : List InterfaceOutline
  controllers : List ControllerOutline

namespace DeclaredType

def interfaceOutline (lead : String) (t : DeclaredType) : InterfaceOutline :=
  ⟨lead, t.name, t.inheritedEndpoints⟩

def controllerOutline (lead : String) (t : DeclaredType) : ControllerOutline :=
  ⟨lead ++ t.name, t.endpointMethods.map (·.declaredEndpoint), t.implemented⟩

end DeclaredType

namespace SourceUnit

def interfaceOutlines (u : SourceUnit) : List InterfaceOutline :=
  (u.types.filter (·.isInterface)).map (·.interfaceOutline u.lead)

def controllerOutlines (u : SourceUnit) : List ControllerOutline :=
  (u.types.filter (·.isController)).map (·.controllerOutline u.lead)

end SourceUnit

def Outline.ofUnits (us : List SourceUnit) : Outline :=
  ⟨us.length, us.flatMap (·.interfaceOutlines), us.flatMap (·.controllerOutlines)⟩

namespace Outline

variable {us vs : List SourceUnit} {xs ys : List Registration}

def ofRegistration (r : Registration) : InterfaceOutline := r.type.interfaceOutline r.lead

def ofAccepted (e : String × DeclaredType) : ControllerOutline :=
  ⟨e.1, e.2.endpointMethods.map (·.declaredEndpoint), e.2.implemented⟩

theorem map_registrations (us : List SourceUnit) :
    (us.flatMap (·.registrations)).map ofRegistration = (ofUnits us).interfaces := by
  rw [ofUnits, List.map_flatMap]
  congr 1
  funext u
  rw [SourceUnit.registrations, List.map_map]
  rfl

theorem map_acceptedTypes (us : List SourceUnit) :
    (acceptedTypes us).map ofAccepted = (ofUnits us).controllers := by
  rw [ofUnits, acceptedTypes, List.map_flatMap]
  congr 1
  funext u
  rw [List.map_map]
  rfl

/-- The interface found under a name passes on the endpoints of the last outline with that name. -/
theorem map_findRev?_goesBy (name : String) (xs : List Registration) :
    (xs.findRev? (·.goesBy name)).map (·.type.inheritedEndpoints) =
      ((xs.map ofRegistration).findRev? fun o => name == o.name || name == o.lead ++ o.name).map
        (·.endpoints) := by
  rw [List.findRev?_eq_find?_reverse, List.findRev?_eq_find?_reverse, ← List.map_reverse,
    List.find?_map, Option.map_map]
  rfl

theorem map_findRev?_congr (h : xs.map ofRegistration = ys.map ofRegistration) (name : String) :
    (xs.findRev? (·.goesBy name)).map (·.type.inheritedEndpoints) =
      (ys.findRev? (·.goesBy name)).map (·.type.inheritedEndpoints) := by
  rw [map_findRev?_goesBy, map_findRev?_goesBy, h]

theorem namesOf_congr (h : xs.map ofRegistration = ys.map ofRegistration) (simple : String) :
    Registration.namesOf xs simple = Registration.namesOf ys simple := by
  have hnames (zs : List Registration) :
      (zs.filter (·.type.name == simple)).map (·.qualifiedName) =
        ((zs.map ofRegistration).filter (·.name == simple)).map fun o => o.lead ++ o.name := by
    rw [List.filter_map, List.map_map]
    rfl
  rw [Registration.namesOf, Registration.namesOf, hnames, hnames, h]

/-- A reference passes on the same endpoints wherever the interfaces have the same outlines. -/
theorem resolve_congr (h : (ofUnits us).interfaces = (ofUnits vs).interfaces) (r : TypeReference) :
    ((Catalog.ofUnits us).resolve r).map (·.inheritedEndpoints) =
      ((Catalog.ofUnits vs).resolve r).map (·.inheritedEndpoints) := by
  rw [← map_registrations, ← map_registrations] at h
  rw [(Catalog.records_ofUnits us).resolve, (Catalog.records_ofUnits vs).resolve]
  simp only [Option.map_map, Option.map_or, Function.comp_def]
  rw [map_findRev?_congr h, map_findRev?_congr h]

/-- The controller that an outline describes. -/
def controllerWith (c : Catalog) (o : ControllerOutline) : Controller :=
  ⟨o.qualifiedName, o.endpoints ++
    (o.implemented.filterMap fun r => (c.resolve r).map (·.inheritedEndpoints)).flatten⟩

theorem asController_eq (c : Catalog) (e : String × DeclaredType) :
    e.2.asController c e.1 = controllerWith c (ofAccepted e) := by
  have hinherited (rs : List TypeReference) :
      (rs.map (DeclaredType.referredEndpoints c e.1)).flatMap (·.1) =
        (rs.filterMap fun r => (c.resolve r).map (·.inheritedEndpoints)).flatten := by
    induction rs with
    | nil => rfl
    | cons r rs ih =>
        rw [List.map_cons, List.flatMap_cons, ih, DeclaredType.referredEndpoints_fst,
          List.filterMap_cons]
        cases c.resolve r <;> simp
  rw [DeclaredType.asController, DeclaredType.endpoints_offers e.2 c e.1, hinherited]
  rfl

theorem controllerWith_congr (h : (ofUnits us).interfaces = (ofUnits vs).interfaces)
    (o : ControllerOutline) :
    controllerWith (Catalog.ofUnits us) o = controllerWith (Catalog.ofUnits vs) o := by
  simp only [controllerWith, resolve_congr h]

theorem roster_congr (h : ofUnits us = ofUnits vs) :
    (Roster.ofUnits (Catalog.ofUnits us) us).1 = (Roster.ofUnits (Catalog.ofUnits vs) vs).1 := by
  have hcollected (ws : List SourceUnit) (c : Catalog) :
      ((acceptedTypes ws).map fun e => e.2.asController c e.1) =
        (ofUnits ws).controllers.map (controllerWith c) := by
    rw [← map_acceptedTypes, List.map_map]
    exact List.map_congr_left fun e _ => asController_eq c e
  rw [Roster.ofUnits_fst, Roster.ofUnits_fst, hcollected, hcollected, h]
  congr 1
  exact List.map_congr_left fun o _ => controllerWith_congr (congrArg Outline.interfaces h) o

/-- The analysis depends on the outline of the source files only. -/
theorem analysis_congr (h : ofUnits us = ofUnits vs) : Analysis.ofUnits us = Analysis.ofUnits vs := by
  have hc := Catalog.records_ofUnits us
  have hd := Catalog.records_ofUnits vs
  have hinterfaces : (us.flatMap (·.registrations)).map ofRegistration =
      (vs.flatMap (·.registrations)).map ofRegistration := by
    rw [map_registrations, map_registrations, h]
  refine Analysis.ofUnits_congr (congrArg Outline.files h) (roster_congr h) ?_ ?_
  · have hlength := congrArg List.length hinterfaces
    rw [List.length_map, List.length_map] at hlength
    rw [hc.count, hd.count, hlength]
  · have hnames : (Catalog.ofUnits us).qualifiedNames = (Catalog.ofUnits vs).qualifiedNames := by
      apply SortedMap.ext_get?
      intro simple
      rw [hc.names, hd.names, namesOf_congr hinterfaces]
    rw [Catalog.ambiguous, Catalog.ambiguous, hnames]

end Outline

/-! ### Edits that keep the outline -/

namespace Method

/-- An edit of a method, wherever it is declared. -/
inductive Edit (m : Method) : Method → Prop
  | dropMarkup (before : List Annotation) {after : List Annotation} {a : Annotation} :
      m.annotations = before ++ a :: after → a.mark? EndpointMark = none →
      Edit m { m with annotations := before ++ after }
  | renameParameters {parameters : List Parameter} :
      parameters.map (·.type) = m.parameters.map (·.type) →
      Edit m { m with parameters := parameters }

variable {m n : Method}

theorem Edit.isEndpoint (h : m.Edit n) : n.isEndpoint = m.isEndpoint := by
  cases h with
  | dropMarkup _ hannotations hmark =>
      rw [Method.isEndpoint, Method.isEndpoint, hannotations]
      simp [ Annotation.matchesAny, hmark]
  | renameParameters _ => rfl

theorem Edit.declaredEndpoint (h : m.Edit n) : n.declaredEndpoint = m.declaredEndpoint := by
  cases h with
  | dropMarkup _ _ _ => rfl
  | renameParameters htypes =>
      rw [Method.declaredEndpoint, Method.declaredEndpoint, htypes]
      rfl

theorem Edit.inheritedEndpoint (h : m.Edit n) (interface : String) :
    n.inheritedEndpoint interface = m.inheritedEndpoint interface := by
  cases h <;> rfl

end Method

namespace DeclaredType

/-- An edit of a type. What the endpoints of an interface take may be changed unless it is a
controller itself, and a reference may be dropped unless it is one of a controller. -/
inductive Edit (t : DeclaredType) : DeclaredType → Prop
  | dropMethod (before : List Method) {after : List Method} {m : Method} :
      t.methods = before ++ m :: after → ¬ m.isEndpoint →
      Edit t { t with methods := before ++ after }
  | editMethod (before : List Method) {after : List Method} {m n : Method} :
      t.methods = before ++ m :: after → m.Edit n →
      Edit t { t with methods := before ++ n :: after }
  | replaceParameters (parameters : List Parameter) (before : List Method) {after : List Method}
      {m : Method} :
      t.isInterface → ¬ t.isController → t.methods = before ++ m :: after → m.isEndpoint →
      Edit t { t with methods := before ++ { m with parameters := parameters } :: after }
  | dropMarkup (before : List Annotation) {after : List Annotation} {a : Annotation} :
      t.annotations = before ++ a :: after → a.mark? ControllerMark = none →
      Edit t { t with annotations := before ++ after }
  | dropReference (before : List TypeReference) {after : List TypeReference} {r : TypeReference} :
      ¬ t.isController → t.implemented = before ++ r :: after →
      Edit t { t with implemented := before ++ after }

variable {t t' : DeclaredType}

theorem isController_congr
    (hmarks : t'.annotations.filterMap (·.mark? ControllerMark) =
      t.annotations.filterMap (·.mark? ControllerMark))
    (hmethods : t'.methods.any (·.isEndpoint) = t.methods.any (·.isEndpoint)) :
    t'.isController = t.isController := by
  rw [isController, isController, hmarks, hmethods]

theorem Edit.isInterface (h : t.Edit t') : t'.isInterface = t.isInterface := by
  cases h <;> rfl

theorem Edit.isController (h : t.Edit t') : t'.isController = t.isController := by
  cases h with
  | dropMethod _ hmethods hplain =>
      refine isController_congr rfl ?_
      rw [hmethods]
      simp [hplain]
  | editMethod _ hmethods hedit =>
      refine isController_congr rfl ?_
      rw [hmethods]
      simp [hedit.isEndpoint]
  | replaceParameters _ _ _ _ hmethods _ =>
      refine isController_congr rfl ?_
      rw [hmethods]
      simp [Method.isEndpoint]
  | dropMarkup _ hannotations hmark =>
      refine isController_congr ?_ rfl
      rw [hannotations]
      simp [hmark]
  | dropReference _ _ _ => exact isController_congr rfl rfl

/-- An interface passes on what it did before. -/
theorem Edit.interfaceOutline (h : t.Edit t') (lead : String) :
    t'.interfaceOutline lead = t.interfaceOutline lead := by
  have hendpoints : t'.inheritedEndpoints = t.inheritedEndpoints := by
    cases h with
    | dropMethod _ hmethods hplain =>
        rw [inheritedEndpoints, inheritedEndpoints, endpointMethods, endpointMethods, hmethods]
        simp [hplain]
    | editMethod _ hmethods hedit =>
        rw [inheritedEndpoints, inheritedEndpoints, endpointMethods, endpointMethods, hmethods]
        simp only [List.filter_append, List.filter_cons, hedit.isEndpoint]
        split <;> simp [hedit.inheritedEndpoint]
    | replaceParameters _ _ _ _ hmethods hendpoint =>
        rw [inheritedEndpoints, inheritedEndpoints, endpointMethods, endpointMethods, hmethods]
        simp only [List.filter_append, List.filter_cons, Method.isEndpoint] at hendpoint ⊢
        rw [if_pos hendpoint, if_pos hendpoint]
        simp [Method.inheritedEndpoint, Method.returned, Method.returnsVoid]
    | dropMarkup _ _ _ => rfl
    | dropReference _ _ _ => rfl
  have hname : t'.name = t.name := by
    cases h <;> rfl
  rw [DeclaredType.interfaceOutline, DeclaredType.interfaceOutline, hendpoints, hname]

/-- A controller has the endpoints and references that it had before. -/
theorem Edit.controllerOutline (h : t.Edit t') (hcontroller : t.isController) (lead : String) :
    t'.controllerOutline lead = t.controllerOutline lead := by
  cases h with
  | dropMethod _ hmethods hplain =>
      rw [DeclaredType.controllerOutline, DeclaredType.controllerOutline, endpointMethods,
        endpointMethods, hmethods]
      simp [hplain]
  | editMethod _ hmethods hedit =>
      rw [DeclaredType.controllerOutline, DeclaredType.controllerOutline, endpointMethods,
        endpointMethods, hmethods]
      simp only [List.filter_append, List.filter_cons, hedit.isEndpoint]
      split <;> simp [hedit.declaredEndpoint]
  | replaceParameters _ _ _ hplain _ _ => exact absurd hcontroller hplain
  | dropMarkup _ _ _ => rfl
  | dropReference _ hplain _ => exact absurd hcontroller hplain

end DeclaredType

namespace SourceUnit

/-- An edit of a source file: a class that is no controller is dropped, or a type is edited. -/
inductive Edit (u : SourceUnit) : SourceUnit → Prop
  | dropClass (before : List DeclaredType) {after : List DeclaredType} {t : DeclaredType} :
      u.types = before ++ t :: after → ¬ t.isInterface → ¬ t.isController →
      Edit u { u with types := before ++ after }
  | editType (before : List DeclaredType) {after : List DeclaredType} {t t' : DeclaredType} :
      u.types = before ++ t :: after → t.Edit t' →
      Edit u { u with types := before ++ t' :: after }

variable {u v : SourceUnit}

theorem Edit.interfaceOutlines (h : u.Edit v) : v.interfaceOutlines = u.interfaceOutlines := by
  cases h with
  | dropClass _ htypes hclass _ =>
      rw [SourceUnit.interfaceOutlines, SourceUnit.interfaceOutlines, htypes]
      simp [hclass, lead]
  | editType _ htypes hedit =>
      rw [SourceUnit.interfaceOutlines, SourceUnit.interfaceOutlines, htypes]
      simp only [List.filter_append, List.filter_cons, hedit.isInterface]
      split <;> simp [hedit.interfaceOutline, lead]

theorem Edit.controllerOutlines (h : u.Edit v) : v.controllerOutlines = u.controllerOutlines := by
  cases h with
  | dropClass _ htypes _ hplain =>
      rw [SourceUnit.controllerOutlines, SourceUnit.controllerOutlines, htypes]
      simp [hplain, lead]
  | editType _ htypes hedit =>
      rw [SourceUnit.controllerOutlines, SourceUnit.controllerOutlines, htypes]
      simp only [List.filter_append, List.filter_cons, hedit.isController]
      split
      · next hcontroller => simp [hedit.controllerOutline hcontroller, lead]
      · simp [lead]

end SourceUnit

/-- One edit somewhere in the source files. -/
inductive Edit (us : List SourceUnit) : List SourceUnit → Prop
  | file (before : List SourceUnit) {after : List SourceUnit} {u v : SourceUnit} :
      us = before ++ u :: after → u.Edit v → Edit us (before ++ v :: after)

theorem Edit.outline {us vs : List SourceUnit} (h : Edit us vs) :
    Outline.ofUnits vs = Outline.ofUnits us := by
  obtain ⟨_, hfiles, hedit⟩ := h
  rw [hfiles, Outline.ofUnits, Outline.ofUnits]
  simp [hedit.interfaceOutlines, hedit.controllerOutlines]

namespace Analysis

/-- No combination of such edits shows in the analysis. -/
theorem ofUnits_edited {us vs : List SourceUnit} (hedits : Relation.ReflTransGen Edit us vs) :
    ofUnits vs = ofUnits us := by
  apply Outline.analysis_congr
  induction hedits with
  | refl => rfl
  | tail _ hedit ih => exact hedit.outline.trans ih

/-- The interface loses a method and takes other parameters, the service a plain method and a plain
annotation, and the plain class goes. -/
theorem ofUnits_edited_service :
    let find : Method := ⟨"find", "User", [⟨"id", "Long"⟩], [⟨"GetMapping"⟩]⟩
    let help : Method := ⟨"help", "Help", [], [⟨"Deprecated"⟩]⟩
    let api (ms : List Method) : DeclaredType := ⟨"Api", .interfaceType, [], ms, []⟩
    let service (as : List Annotation) (ms : List Method) : DeclaredType :=
      ⟨"C", .classType, as, ms, [⟨none, "Api"⟩]⟩
    let plain : DeclaredType := ⟨"Plain", .classType, [], [find], [⟨none, "Api"⟩]⟩
    let us : List SourceUnit := [⟨some "a", [api [help, find]]⟩,
      ⟨some "b", [plain, service [⟨"Lazy"⟩, ⟨"Service"⟩] [find, help]]⟩]
    let vs : List SourceUnit := [⟨some "a", [api [{ find with parameters := [] }]]⟩,
      ⟨some "b", [service [⟨"Service"⟩] [find]]⟩]
    Relation.ReflTransGen Edit us vs ∧ ofUnits vs = ofUnits us := by
  intro find help api service plain us vs
  let file (ts : List DeclaredType) : SourceUnit := ⟨some "b", ts⟩
  have hedits : Relation.ReflTransGen Edit us vs := by
    calc
      Relation.ReflTransGen Edit us
          [⟨some "a", [api [find]]⟩, file [plain, service [⟨"Lazy"⟩, ⟨"Service"⟩] [find, help]]] :=
        .single (.file [] rfl (.editType [] rfl (.dropMethod [] rfl (by decide))))
      Relation.ReflTransGen Edit _
          [⟨some "a", [api [{ find with parameters := [] }]]⟩,
            file [plain, service [⟨"Lazy"⟩, ⟨"Service"⟩] [find, help]]] :=
        .single (.file [] rfl (.editType [] rfl
          (.replaceParameters [] [] (by decide) (by decide) rfl (by decide))))
      Relation.ReflTransGen Edit _
          [⟨some "a", [api [{ find with parameters := [] }]]⟩,
            file [service [⟨"Lazy"⟩, ⟨"Service"⟩] [find, help]]] :=
        .single (.file [_] rfl (.dropClass [] rfl (by decide) (by decide)))
      Relation.ReflTransGen Edit _
          [⟨some "a", [api [{ find with parameters := [] }]]⟩,
            file [service [⟨"Service"⟩] [find, help]]] :=
        .single (.file [_] rfl (.editType [] rfl (.dropMarkup [] rfl (by decide))))
      Relation.ReflTransGen Edit _ vs :=
        .single (.file [_] rfl (.editType [] rfl (.dropMethod [_] rfl (by decide))))
  exact ⟨hedits, ofUnits_edited hedits⟩

end Analysis

end EndpointAtlas
