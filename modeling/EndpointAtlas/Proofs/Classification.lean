import EndpointAtlas.Proofs.Qualification

/-!
# Which types are controllers

A type is a controller if it has an annotation for one, or an annotation for a service and a method that
is an endpoint. So only the annotations with these names count, wherever they stand, and more of them
never make a controller something else.
-/

namespace EndpointAtlas

/-- The simple names that make a type a controller. -/
def controllerNames : List String := ["Controller", "RestController", "Path", "ApplicationPath"]

/-- The simple names that make a method an endpoint. -/
def endpointNames : List String :=
  ["GetMapping", "PostMapping", "PutMapping", "DeleteMapping", "PatchMapping", "RequestMapping",
    "ResponseBody"]

/-- Whether the simple name of an annotation is one of some names. -/
def Annotation.IsNamed (names : List String) (a : Annotation) : Prop :=
  ∃ simple ∈ names, IsSimpleName simple a.name

instance (simple name : String) : Decidable (IsSimpleName simple name) :=
  decidable_of_iff ((⟨name⟩ : Annotation).simpleName = simple) Annotation.simpleName_eq_iff

instance (names : List String) (a : Annotation) : Decidable (a.IsNamed names) :=
  inferInstanceAs (Decidable (∃ simple ∈ names, _))

variable {μ : Type} [Vocabulary μ] [LawfulVocabulary μ] {marks : List μ} {a : Annotation} {m n : Method}
  {t u v : DeclaredType}

theorem Annotation.isNamed_iff :
    a.IsNamed (marks.map Vocabulary.name) ↔ ∃ mark ∈ marks, a.mark? μ = some mark := by
  simp only [IsNamed, List.mem_map, exists_exists_and_eq_and, mark?_eq_some_iff]

/-! ### Endpoints and controllers -/

theorem Method.isEndpoint_iff : m.isEndpoint ↔ ∃ a ∈ m.annotations, a.IsNamed endpointNames := by
  have hnames : endpointNames = EndpointMark.all.map Vocabulary.name := rfl
  rw [isEndpoint, List.any_eq_true, hnames]
  refine exists_congr fun a => and_congr_right fun _ => ?_
  refine Iff.trans ?_ Annotation.isNamed_iff.symm
  unfold Annotation.matchesAny
  cases a.mark? EndpointMark <;> simp

/-- Where all marks are those of a service an endpoint decides, and else there is no need of one. -/
theorem DeclaredType.isController_iff_mark : t.isController ↔
    (∃ a ∈ t.annotations, ∃ mark, a.mark? ControllerMark = some mark ∧ mark ≠ .service) ∨
      (∃ a ∈ t.annotations, a.mark? ControllerMark = some .service) ∧
        ∃ m ∈ t.methods, m.isEndpoint := by
  have hmark (mark : ControllerMark) : mark ∈ t.annotations.filterMap (·.mark? ControllerMark) ↔
      ∃ a ∈ t.annotations, a.mark? ControllerMark = some mark := List.mem_filterMap
  have hother : (∃ a ∈ t.annotations, ∃ mark, a.mark? ControllerMark = some mark ∧ mark ≠ .service) ↔
      ∃ mark ∈ t.annotations.filterMap (·.mark? ControllerMark), mark ≠ .service := by
    simp only [hmark]
    tauto
  rw [hother, ← hmark, isController]
  cases t.annotations.filterMap (·.mark? ControllerMark) with
  | nil => simp
  | cons mark marks =>
      dsimp only
      split
      · next hservices =>
        have hservices : ∀ other ∈ mark :: marks, other = .service := by simpa using hservices
        have hmem : ControllerMark.service ∈ mark :: marks := by
          rw [← hservices mark List.mem_cons_self]
          exact List.mem_cons_self
        rw [List.any_eq_true]
        refine ⟨fun hendpoint => Or.inr ⟨hmem, hendpoint⟩, ?_⟩
        rintro (⟨other, hmem, hne⟩ | ⟨-, hendpoint⟩)
        · exact absurd (hservices other hmem) hne
        · exact hendpoint
      · next hservices =>
        rw [List.all_eq_true] at hservices
        push Not at hservices
        refine iff_of_true rfl (Or.inl ?_)
        simpa only [ne_eq, beq_iff_eq] using hservices

theorem DeclaredType.isController_iff : t.isController ↔
    (∃ a ∈ t.annotations, a.IsNamed controllerNames) ∨
      (∃ a ∈ t.annotations, a.IsNamed ["Service"]) ∧
        ∃ m ∈ t.methods, ∃ a ∈ m.annotations, a.IsNamed endpointNames := by
  have hnames : controllerNames =
      [.controller, .restController, .path, .applicationPath].map ControllerMark.name := rfl
  have hother (mark : ControllerMark) : mark ≠ .service ↔
      mark ∈ [ControllerMark.controller, .restController, .path, .applicationPath] := by
    cases mark <;> decide
  have hcontroller (a : Annotation) : a.IsNamed controllerNames ↔
      ∃ mark, a.mark? ControllerMark = some mark ∧ mark ≠ .service := by
    rw [hnames]
    refine Annotation.isNamed_iff.trans (exists_congr fun mark => ?_)
    rw [hother, and_comm]
  have hservice (a : Annotation) :
      a.IsNamed ["Service"] ↔ a.mark? ControllerMark = some .service := by
    have hnames : ["Service"] = [ControllerMark.service].map Vocabulary.name := rfl
    rw [hnames, Annotation.isNamed_iff]
    simp
  simp only [isController_iff_mark, hcontroller, hservice, Method.isEndpoint_iff]

/-! ### What makes no difference -/

/-- Whether all that counts of `t` is found in `u`, in any order and any number: the annotations of the
type that have a name of a controller or a service, and for each method one with all of its annotations
that have a name of an endpoint. -/
structure DeclaredType.Covers (u t : DeclaredType) : Prop where
  annotations : ∀ a ∈ t.annotations, a.IsNamed ("Service" :: controllerNames) → a ∈ u.annotations
  methods : ∀ m ∈ t.methods, ∃ n ∈ u.methods,
    ∀ a ∈ m.annotations, a.IsNamed endpointNames → a ∈ n.annotations

namespace DeclaredType

theorem covers_of_subset (hannotations : t.annotations ⊆ u.annotations)
    (hmethods : t.methods ⊆ u.methods) : u.Covers t where
  annotations _ ha _ := hannotations ha
  methods m hm := ⟨m, hmethods hm, fun _ ha _ => ha⟩

theorem Covers.exists_named (h : u.Covers t) {names : List String}
    (hnames : names ⊆ "Service" :: controllerNames) :
    (∃ a ∈ t.annotations, a.IsNamed names) → ∃ a ∈ u.annotations, a.IsNamed names := by
  rintro ⟨a, ha, simple, hmem, hsimple⟩
  exact ⟨a, h.annotations a ha ⟨simple, hnames hmem, hsimple⟩, simple, hmem, hsimple⟩

theorem Covers.isController (h : u.Covers t) : t.isController → u.isController := by
  rw [isController_iff, isController_iff]
  refine Or.imp (h.exists_named (by decide)) (And.imp (h.exists_named (by decide)) ?_)
  rintro ⟨m, hm, a, ha, hnamed⟩
  obtain ⟨n, hn, hcovered⟩ := h.methods m hm
  exact ⟨n, hn, a, hcovered a ha hnamed, hnamed⟩

/-- A type is a controller by the name of an annotation, or as a service with an endpoint. More
annotations and methods leave it one, and two types of which each has all that counts of the other are
both controllers or none is. -/
theorem isController_rule :
    (∀ t : DeclaredType, t.isController ↔
      (∃ a ∈ t.annotations, a.IsNamed controllerNames) ∨
        (∃ a ∈ t.annotations, a.IsNamed ["Service"]) ∧
          ∃ m ∈ t.methods, ∃ a ∈ m.annotations, a.IsNamed endpointNames) ∧
    (∀ t u : DeclaredType, u.Covers t → t.isController → u.isController) ∧
    ∀ t u : DeclaredType, t.Covers u → u.Covers t → t.isController = u.isController := by
  refine ⟨fun _ => isController_iff, fun t u h => h.isController, fun t u htu hut => ?_⟩
  rw [Bool.eq_iff_iff]
  exact ⟨hut.isController, htu.isController⟩

/-- A service with one endpoint, and the same under another name with its annotations and methods in
another order, some of them twice and some added that count for nothing. -/
theorem isController_rule_service :
    let find : Method := ⟨"find", "User", [], [⟨"org.web.GetMapping"⟩]⟩
    let ping : Method := ⟨"ping", "void", [], []⟩
    let t : DeclaredType := ⟨"Users", .classType, [⟨"Service"⟩, ⟨"Lazy"⟩], [find, ping], []⟩
    let u : DeclaredType :=
      ⟨"Api", .interfaceType, [⟨"Deprecated"⟩, ⟨"Lazy"⟩, ⟨"Service"⟩, ⟨"Service"⟩],
        [ping, find, find], [⟨none, "Base"⟩]⟩
    t.Covers u ∧ u.Covers t ∧ t.isController = u.isController ∧ u.isController := by
  intro find ping t u
  have hcounts : ∀ a ∈ u.annotations, a.IsNamed ("Service" :: controllerNames) →
      a ∈ t.annotations := by decide
  have hmethods : u.methods ⊆ t.methods := by decide
  have htu : t.Covers u := ⟨hcounts, fun m hm => ⟨m, hmethods hm, fun _ ha _ => ha⟩⟩
  have hut : u.Covers t := covers_of_subset (by decide) (by decide)
  exact ⟨htu, hut, isController_rule.2.2 t u htu hut, by decide⟩

end DeclaredType

end EndpointAtlas
