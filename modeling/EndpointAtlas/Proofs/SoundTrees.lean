import EndpointAtlas.Proofs.Rules
import EndpointAtlas.Proofs.Spelling
import EndpointAtlas.Proofs.TreeText
import EndpointAtlas.Syntax.Reading

/-!
# Trees that follow the grammar

A tree is sound if each of its nodes is filled as a rule of the grammar says, each of its tokens has the
text of its terminal and each of its summaries is right. What no rule has a place for is a comment,
unless it comes from a repair, and it never comes first in a node.
-/

namespace EndpointAtlas.Syntax

open Grammar

namespace Tree

variable {t : Tree} {label : Label} {steps init mid : List Step} {step : Step} {kind : Construct}
  {bias : Int} {pieces children : List (Label × Tree)} {child : Label × Tree}

/-! ### Summaries -/

theorem repaired_summarize (skipping : Bool) (bias : Int) (children : List (Label × Tree)) :
    (summarize skipping bias children).repaired =
      (skipping || children.any fun child => child.2.hasRepair) := by
  have hfold (step : Summary × Bool → Label × Tree → Summary × Bool)
      (hstep : ∀ acc child, (step acc child).1.repaired = (acc.1.repaired || child.2.hasRepair))
      (acc : Summary × Bool) : (children.foldl step acc).1.repaired =
        (acc.1.repaired || children.any fun child => child.2.hasRepair) := by
    induction children generalizing acc with
    | nil => simp
    | cons child children ih =>
        rw [List.foldl_cons, ih, hstep, List.any_cons, Bool.or_assoc]
  unfold summarize
  dsimp only
  split <;> exact hfold _ (fun _ _ => rfl) _

/-- Whether a summary says of children, skipped or not, whether there is a repair in them and how long
their text is. -/
structure IsSummary (skipping : Bool) (children : List (Label × Tree)) (s : Summary) : Prop where
  repaired : s.repaired = (skipping || children.any fun child => child.2.hasRepair)
  bytes : s.bytes = (children.map fun child => child.2.summary.bytes).sum

theorem isSummary_summarize (skipping : Bool) (bias : Int) (children : List (Label × Tree)) :
    IsSummary skipping children (summarize skipping bias children) :=
  ⟨repaired_summarize skipping bias children, bytes_summarize skipping bias children⟩

theorem hasRepair_ofChildren (kind : Construct) (bias : Int) (children : List (Label × Tree)) :
    (ofChildren kind bias children).hasRepair = children.any fun child => child.2.hasRepair := by
  change (summarize false bias children).repaired = _
  rw [repaired_summarize, Bool.false_or]

theorem hasRepair_skip (isOpen : Bool) (children : List (Label × Tree)) :
    (skip isOpen children).hasRepair = true := by
  change (summarize true 0 children).repaired = true
  rw [repaired_summarize, Bool.true_or]

/-! ### Children in their places -/

def IsComment : Tree → Prop
  | token kind _ _ => kind = .lineComment ∨ kind = .blockComment
  | _ => False

/-- How a tree stands that has no place in a production yet: it has no role, and if it is an extra it is
a comment or comes from a repair. -/
structure IsLoose (label : Label) (t : Tree) : Prop where
  role : label.role = none
  shown : label.shown = none
  extra : label.extra → t.IsComment ∨ t.hasRepair

/-- How a tree stands among others: for a step of a rule, or without a role and as what it is. -/
inductive IsPlaced : Label → Tree → Prop
  | loose {label : Label} {t : Tree} : label.role = none → label.shown = none → IsPlaced label t
  | step {c : Construct} {steps : List Step} {step : Step} {t : Tree} :
      c.Allows steps → step ∈ steps → t.symbol? = some step.symbol →
      IsPlaced { role := step.role, shown := step.shown } t

theorem IsLoose.isPlaced (h : IsLoose label t) : IsPlaced label t := .loose h.role h.shown

/-- Whether children stand for the steps of a production one by one, with extras between them. -/
inductive Fills : List Step → List (Label × Tree) → Prop
  | done : Fills [] []
  | extra {steps : List Step} {label : Label} {t : Tree} {children : List (Label × Tree)} :
      label.extra → IsLoose label t → Fills steps children → Fills steps ((label, t) :: children)
  | step {step : Step} {steps : List Step} {t : Tree} {children : List (Label × Tree)} :
      t.symbol? = some step.symbol → Fills steps children →
      Fills (step :: steps) (({ role := step.role, shown := step.shown }, t) :: children)

def isOwn (child : Label × Tree) : Bool := !child.1.extra

theorem Fills.countP (h : Fills steps children) : children.countP isOwn = steps.length := by
  induction h with
  | done => rfl
  | extra hextra _ _ ih => rw [List.countP_cons_of_neg (by simp [isOwn, hextra]), ih]
  | step _ _ ih => rw [List.countP_cons_of_pos (by rfl), ih, List.length_cons]

/-- A child is an extra or stands for a step. -/
theorem Fills.cases_of_mem (h : Fills steps children) (hmem : child ∈ children) :
    (child.1.extra ∧ IsLoose child.1 child.2) ∨ ∃ step ∈ steps,
      child.2.symbol? = some step.symbol ∧ child.1 = { role := step.role, shown := step.shown } := by
  induction h with
  | done => cases hmem
  | extra hextra hloose _ ih =>
      rw [List.mem_cons] at hmem
      obtain rfl | hmem := hmem
      · exact Or.inl ⟨hextra, hloose⟩
      · exact ih hmem
  | step hsymbol _ ih =>
      rw [List.mem_cons] at hmem
      obtain rfl | hmem := hmem
      · exact Or.inr ⟨_, List.mem_cons_self, hsymbol, rfl⟩
      · exact (ih hmem).imp_right fun ⟨s, hs, hplace⟩ =>
          ⟨s, List.mem_cons_of_mem _ hs, hplace⟩

theorem Fills.isPlaced (h : Fills steps children) (hallows : kind.Allows steps) :
    ∀ child ∈ children, IsPlaced child.1 child.2 := by
  intro child hchild
  obtain ⟨-, hloose⟩ | ⟨step, hstep, hsymbol, hplace⟩ := h.cases_of_mem hchild
  · exact hloose.isPlaced
  · rw [hplace]
    exact .step hallows hstep hsymbol

/-- The children up to the one that stands for the first step. -/
theorem Fills.exists_cons (h : Fills (step :: steps) children) : ∃ extras t rest,
    children = extras ++ ({ role := step.role, shown := step.shown }, t) :: rest ∧
      Fills [] extras ∧ t.symbol? = some step.symbol ∧ Fills steps rest := by
  generalize hsteps : step :: steps = whole at h
  induction h with
  | done => cases hsteps
  | extra hextra hloose _ ih =>
      obtain ⟨extras, t, rest, rfl, hextras, hsymbol, hrest⟩ := ih hsteps
      exact ⟨_ :: extras, t, rest, rfl, .extra hextra hloose hextras, hsymbol, hrest⟩
  | step hsymbol hrest =>
      cases hsteps
      exact ⟨[], _, _, rfl, .done, hsymbol, hrest⟩

theorem not_isOwn_of_fills (h : Fills [] children) : ∀ child ∈ children, ¬ isOwn child := by
  intro child hchild
  obtain ⟨hextra, -⟩ | ⟨step, hstep, -⟩ := h.cases_of_mem hchild
  · simp [isOwn, hextra]
  · cases hstep

/-- A node that does not begin with an extra begins with the child for its first step. -/
theorem Fills.exists_head (h : Fills (step :: steps) children)
    (hfirst : ∀ first ∈ children.head?, isOwn first) : ∃ t rest,
    children = ({ role := step.role, shown := step.shown }, t) :: rest ∧
      t.symbol? = some step.symbol ∧ Fills steps rest := by
  obtain ⟨extras, t, rest, rfl, hextras, hsymbol, hrest⟩ := h.exists_cons
  cases extras with
  | nil => exact ⟨t, rest, rfl, hsymbol, hrest⟩
  | cons child extras =>
      exact absurd (hfirst child rfl) (not_isOwn_of_fills hextras child List.mem_cons_self)

/-- A node that does not end with an extra ends with the child for its last step. -/
theorem Fills.exists_last (h : Fills (init ++ [step]) children)
    (hlast : ∀ last ∈ children.getLast?, isOwn last) : ∃ before t,
    children = before ++ [({ role := step.role, shown := step.shown }, t)] ∧
      t.symbol? = some step.symbol ∧ Fills init before := by
  generalize hsteps : init ++ [step] = steps at h
  induction h generalizing init with
  | done => simp at hsteps
  | @extra steps label t children hextra hloose hrest ih =>
      obtain rfl | hne := eq_or_ne children []
      · have hown := hlast _ rfl
        simp [isOwn, hextra] at hown
      · rw [List.getLast?_cons_of_ne_nil hne] at hlast
        obtain ⟨before, u, rfl, hsymbol, hbefore⟩ := ih hlast hsteps
        exact ⟨_ :: before, u, rfl, hsymbol, .extra hextra hloose hbefore⟩
  | @step first steps t children hsymbol hrest ih =>
      cases init with
      | nil =>
          obtain ⟨rfl, rfl⟩ := List.cons.inj hsteps
          obtain rfl | hne := eq_or_ne children []
          · exact ⟨[], t, rfl, hsymbol, .done⟩
          · rw [List.getLast?_cons_of_ne_nil hne] at hlast
            have hlastOwn := hlast _ (List.getLast?_eq_some_getLast hne)
            exact absurd hlastOwn (not_isOwn_of_fills hrest _ (List.getLast_mem hne))
      | cons first' init =>
          obtain ⟨rfl, rfl⟩ := List.cons.inj hsteps
          have hne : children ≠ [] := by
            rintro rfl
            have hcount := hrest.countP
            simp at hcount
          rw [List.getLast?_cons_of_ne_nil hne] at hlast
          obtain ⟨before, u, rfl, hlastSymbol, hbefore⟩ := ih hlast rfl
          exact ⟨_ :: before, u, rfl, hlastSymbol, .step hsymbol hbefore⟩

/-- A node for a single step that begins and ends with no extra has no extras at all. -/
theorem Fills.exists_single (h : Fills [step] children)
    (hfirst : ∀ first ∈ children.head?, isOwn first)
    (hlast : ∀ last ∈ children.getLast?, isOwn last) : ∃ t,
    children = [({ role := step.role, shown := step.shown }, t)] ∧ t.symbol? = some step.symbol := by
  obtain ⟨t, rest, rfl, hsymbol, hrest⟩ := h.exists_head hfirst
  obtain rfl | hne := eq_or_ne rest []
  · exact ⟨t, rfl, hsymbol⟩
  · rw [List.getLast?_cons_of_ne_nil hne] at hlast
    have hown := hlast _ (List.getLast?_eq_some_getLast hne)
    exact absurd hown (not_isOwn_of_fills hrest _ (List.getLast_mem hne))

/-- The children of a node that has extras only between its first step and its last. -/
theorem Fills.exists_ends {first last : Step} (h : Fills (first :: mid ++ [last]) children)
    (hfirst : ∀ child ∈ children.head?, isOwn child) (hlast : ∀ child ∈ children.getLast?, isOwn child) :
    ∃ t between u,
      children = ({ role := first.role, shown := first.shown }, t) :: between ++
        [({ role := last.role, shown := last.shown }, u)] ∧
      t.symbol? = some first.symbol ∧ Fills mid between ∧ u.symbol? = some last.symbol := by
  obtain ⟨inits, u, rfl, hu, hinits⟩ := h.exists_last hlast
  have hfirstInit : ∀ child ∈ inits.head?, isOwn child := by
    intro child hmem
    refine hfirst child ?_
    rw [List.head?_append, Option.mem_def.1 hmem]
    rfl
  obtain ⟨t, between, rfl, ht, hbetween⟩ := hinits.exists_head hfirstInit
  exact ⟨t, between, u, rfl, ht, hbetween, hu⟩

/-! ### Sound trees -/

inductive Sound : Tree → Prop
  | token {kind : Terminal} {gap text : List Char} : kind.Spells text → Sound (token kind gap text)
  | missing (kind : Terminal) : Sound (missing kind)
  | stray (gap text : List Char) : Sound (stray gap text)
  | node {kind : Construct} {summary : Summary} {steps : List Step}
      {children : List (Label × Tree)} :
      IsSummary false children summary → kind.Allows steps → Fills steps children →
      (∀ last ∈ children.getLast?, isOwn last) → (∀ child ∈ children, Sound child.2) →
      Sound (node kind summary children)
  | skipped {isOpen : Bool} {summary : Summary} {children : List (Label × Tree)} :
      IsSummary true children summary → (∀ child ∈ children, IsLoose child.1 child.2) →
      (∀ child ∈ children, Sound child.2) → Sound (skipped isOpen summary children)

theorem bytes_sourceOf (h : ∀ child ∈ children,
      child.2.summary.bytes = (Extent.ofChars child.2.source).bytes) :
    (children.map fun child => child.2.summary.bytes).sum =
      (Extent.ofChars (sourceOf children)).bytes := by
  induction children with
  | nil => rfl
  | cons child children ih =>
      rw [List.forall_mem_cons] at h
      rw [List.map_cons, List.sum_cons, sourceOf_cons, Extent.bytes_ofChars_append, h.1, ih h.2]

/-- The summary of a sound tree tells how long its text is. -/
theorem Sound.bytes (h : Sound t) : t.summary.bytes = (Extent.ofChars t.source).bytes := by
  induction h with
  | token _ => rw [source_token, Extent.bytes_ofChars_append]; rfl
  | missing _ => rfl
  | stray _ _ => rw [source_stray, Extent.bytes_ofChars_append]; rfl
  | node hsummary _ _ _ _ ih => exact hsummary.bytes.trans (bytes_sourceOf ih)
  | skipped hsummary _ _ ih => exact hsummary.bytes.trans (bytes_sourceOf ih)

/-- Whether no node of a tree begins with an extra, and nothing but a gap stands before its tokens. -/
inductive Neat : Tree → Prop
  | token {kind : Terminal} {gap text : List Char} : Lexeme.IsGap gap → Neat (token kind gap text)
  | missing {kind : Terminal} : Neat (missing kind)
  | stray {gap text : List Char} : Neat (stray gap text)
  | node {kind : Construct} {summary : Summary} {children : List (Label × Tree)} :
      (∀ first ∈ children.head?, isOwn first) → (∀ child ∈ children, Neat child.2) →
      Neat (node kind summary children)
  | skipped {isOpen : Bool} {summary : Summary} {children : List (Label × Tree)} :
      (∀ child ∈ children, Neat child.2) → Neat (skipped isOpen summary children)

theorem Neat.of_mem {summary : Summary} (h : Neat (.node kind summary children))
    (hchild : child ∈ children) : Neat child.2 := by
  cases h with
  | node _ hchildren => exact hchildren child hchild

/-- Whether a piece of a stack is sound, begins with none of its extras and stands by itself. -/
structure IsPiece (p : Label × Tree) : Prop where
  loose : IsLoose p.1 p.2
  sound : Sound p.2
  neat : Neat p.2

theorem isLoose_plain (t : Tree) : IsLoose {} t := ⟨rfl, rfl, nofun⟩

theorem Sound.isPiece (h : Sound t) (hneat : Neat t) : IsPiece ({}, t) :=
  ⟨isLoose_plain t, h, hneat⟩

theorem isPiece_skip {isOpen extra : Bool} (h : ∀ child ∈ children, IsPiece child) :
    IsPiece ({ extra := extra }, skip isOpen children) where
  loose := ⟨rfl, rfl, fun _ => Or.inr (hasRepair_skip isOpen children)⟩
  sound := .skipped (isSummary_summarize true 0 children) (fun child hchild => (h child hchild).loose)
    fun child hchild => (h child hchild).sound
  neat := .skipped fun child hchild => (h child hchild).neat

theorem isPiece_of_skipped {isOpen : Bool} {summary : Summary} (h : Sound (.skipped isOpen summary children))
    (hneat : Neat (.skipped isOpen summary children)) : ∀ child ∈ children, IsPiece child := by
  cases h with
  | skipped _ hloose hsound =>
      cases hneat with
      | skipped hneat =>
          exact fun child hchild => ⟨hloose child hchild, hsound child hchild, hneat child hchild⟩

/-! ### Labels given by a production -/

theorem labelled_nil_iff : labelled steps [] = some children ↔ steps = [] ∧ children = [] := by
  cases steps with
  | nil => simp [labelled, eq_comm]
  | cons step steps => simp [labelled]

/-- An extra keeps its label, and any other piece takes that of the next step. -/
theorem labelled_cons_cases (h : labelled steps ((label, t) :: pieces) = some children) :
    (label.extra = true ∧ ∃ rest, labelled steps pieces = some rest ∧ children = (label, t) :: rest) ∨
      (label.extra = false ∧ ∃ step later rest, steps = step :: later ∧
        t.symbol? = some step.symbol ∧ labelled later pieces = some rest ∧
        children = ({ role := step.role, shown := step.shown }, t) :: rest) := by
  cases hextra : label.extra with
  | true =>
      have hkept : labelled steps ((label, t) :: pieces) =
          (labelled steps pieces).map ((label, t) :: ·) := by
        cases steps <;> simp [labelled, hextra]
      rw [hkept] at h
      obtain ⟨rest, hrest, rfl⟩ := Option.map_eq_some_iff.1 h
      exact Or.inl ⟨rfl, rest, hrest, rfl⟩
  | false =>
      cases steps with
      | nil => simp [labelled, hextra] at h
      | cons step later =>
          by_cases hsymbol : t.symbol? = some step.symbol
          · have hplaced : labelled (step :: later) ((label, t) :: pieces) =
                (labelled later pieces).map
                  (({ role := step.role, shown := step.shown }, t) :: ·) := by
              simp [labelled, hextra, hsymbol]
            rw [hplaced] at h
            obtain ⟨rest, hrest, rfl⟩ := Option.map_eq_some_iff.1 h
            exact Or.inr ⟨rfl, step, later, rest, rfl, hsymbol, hrest, rfl⟩
          · simp [labelled, hextra, hsymbol] at h

theorem fills_of_labelled (h : labelled steps pieces = some children)
    (hpieces : ∀ p ∈ pieces, IsLoose p.1 p.2) : Fills steps children := by
  induction pieces generalizing steps children with
  | nil =>
      obtain ⟨rfl, rfl⟩ := labelled_nil_iff.1 h
      exact .done
  | cons p pieces ih =>
      rw [List.forall_mem_cons] at hpieces
      obtain ⟨hextra, rest, hrest, rfl⟩ | ⟨-, step, later, rest, rfl, hsymbol, hrest, rfl⟩ :=
        labelled_cons_cases h
      · exact .extra hextra hpieces.1 (ih hrest hpieces.2)
      · exact .step hsymbol (ih hrest hpieces.2)

/-- The trees stay as they are, and the extras stay extras. -/
theorem map_of_labelled (h : labelled steps pieces = some children) :
    children.map (·.2) = pieces.map (·.2) ∧ children.map isOwn = pieces.map isOwn := by
  induction pieces generalizing steps children with
  | nil =>
      obtain ⟨rfl, rfl⟩ := labelled_nil_iff.1 h
      exact ⟨rfl, rfl⟩
  | cons p pieces ih =>
      obtain ⟨-, rest, hrest, rfl⟩ | ⟨hown, step, later, rest, rfl, -, hrest, rfl⟩ :=
        labelled_cons_cases h
      · obtain ⟨htrees, howns⟩ := ih hrest
        exact ⟨congrArg (_ :: ·) htrees, congrArg (_ :: ·) howns⟩
      · obtain ⟨htrees, howns⟩ := ih hrest
        refine ⟨congrArg (_ :: ·) htrees, ?_⟩
        rw [List.map_cons, List.map_cons, howns]
        congr 1
        simp [isOwn, hown]

end Tree

end EndpointAtlas.Syntax
