import EndpointAtlas.Proofs.FirmNodes
import EndpointAtlas.Proofs.TypeSymbols
import Mathlib.Data.List.Chain
import Mathlib.Data.List.Forall2

/-!
# The lexemes of a tree

A tree without repairs is spelled by its lexemes. Those of a type without annotations and comments are
words and marks, side by side as the grammar allows it.
-/

namespace EndpointAtlas.Syntax

open Grammar Text

/-- Whether a lexeme is a word or a mark of a type. -/
def Lexeme.IsTypeToken (l : Lexeme) : Prop :=
  ∃ t, l.kind = some t ∧ (t.isTypeWord || t.isTypeMark) ∧ t.Spells l.text

namespace Tree

/-- Whether there are no annotations and no comments in a tree. -/
def IsBare (t : Tree) : Prop :=
  ∀ l ∈ t.lexemes, l.kind ≠ some .atSign ∧ l.kind ≠ some .lineComment ∧ l.kind ≠ some .blockComment

instance (t : Tree) : Decidable t.IsBare :=
  inferInstanceAs (Decidable (∀ l ∈ t.lexemes, _))

variable {t : Tree} {x y z w : Symbol} {steps : List Step} {step : Step}
  {children : List (Label × Tree)} {child : Label × Tree} {ls ms : List Lexeme} {l : Lexeme}

theorem isBare_of_mem (h : ∀ l ∈ lexemesOf children, l.kind ≠ some .atSign ∧
    l.kind ≠ some .lineComment ∧ l.kind ≠ some .blockComment) (hchild : child ∈ children) :
    child.2.IsBare :=
  fun l hl => h l (mem_lexemesOf hchild hl)

/-! ### Children without extras -/

/-- There is a child for each step. -/
theorem Fills.exists_place (h : Fills steps children) (hstep : step ∈ steps) :
    ∃ child ∈ children, child.2.symbol? = some step.symbol ∧
      child.1 = { role := step.role, shown := step.shown } := by
  induction h with
  | done => cases hstep
  | extra _ _ _ ih =>
      obtain ⟨child, hchild, hplace⟩ := ih hstep
      exact ⟨child, List.mem_cons_of_mem _ hchild, hplace⟩
  | step hsymbol _ ih =>
      rw [List.mem_cons] at hstep
      obtain rfl | hstep := hstep
      · exact ⟨_, List.mem_cons_self, hsymbol, rfl⟩
      · obtain ⟨child, hchild, hplace⟩ := ih hstep
        exact ⟨child, List.mem_cons_of_mem _ hchild, hplace⟩

/-- Without extras the children stand for the steps one by one. -/
theorem Fills.forall₂ (h : Fills steps children) (hown : ∀ child ∈ children, isOwn child) :
    List.Forall₂ (fun step child => child.2.symbol? = some step.symbol) steps children := by
  induction h with
  | done => exact .nil
  | extra hextra _ _ _ =>
      have hfirst := hown _ List.mem_cons_self
      simp [isOwn, hextra] at hfirst
  | step hsymbol _ ih =>
      exact .cons hsymbol (ih fun child hchild => hown child (List.mem_cons_of_mem _ hchild))

/-- In a tree without repairs and comments there are no extras. -/
theorem Fills.isOwn_of_isBare (h : Fills steps children)
    (hderived : ∀ child ∈ children, child.2.IsDerived) (hbare : ∀ child ∈ children, child.2.IsBare) :
    ∀ child ∈ children, isOwn child := by
  intro child hchild
  obtain ⟨hextra, hloose⟩ | ⟨step, -, -, hlabel⟩ := h.cases_of_mem hchild
  · obtain hcomment | hrepair := hloose.extra hextra
    · obtain ⟨label, t⟩ := child
      have hplain := hbare _ hchild
      cases t with
      | token kind gap text =>
          obtain ⟨-, hline, hblock⟩ := hplain ⟨gap, text, some kind⟩ (by simp [lexemes])
          obtain rfl | rfl := hcomment
          · exact absurd rfl hline
          · exact absurd rfl hblock
      | _ => cases hcomment
    · rw [(hderived child hchild).clean] at hrepair
      cases hrepair
  · rw [isOwn, hlabel]
    rfl

/-! ### Lexemes of types -/

/-- Whether lexemes are words and marks of a type, each meeting the next, of which the first can begin
`x` and the last can end `y`. -/
structure Runs (x y : Symbol) (ls : List Lexeme) : Prop where
  spelled : ∀ l ∈ ls, l.IsTypeToken
  first : ∃ l ∈ ls.head?, ∃ t ∈ x.opens, l.kind = some t
  last : ∃ l ∈ ls.getLast?, ∃ t ∈ y.closes, l.kind = some t
  meets : ls.IsChain fun a b => ∀ t ∈ a.kind, ∀ u ∈ b.kind, t.Meets u

theorem Runs.append (h : Runs x y ls) (h' : Runs z w ms) (hmeets : y.Meets z) :
    Runs x w (ls ++ ms) where
  spelled l hl := (List.mem_append.1 hl).elim (h.spelled l) (h'.spelled l)
  first := by
    obtain ⟨l, hl, hfirst⟩ := h.first
    exact ⟨l, by simp_all, hfirst⟩
  last := by
    obtain ⟨l, hl, hlast⟩ := h'.last
    exact ⟨l, by simp_all, hlast⟩
  meets := by
    refine List.isChain_append.2 ⟨h.meets, h'.meets, ?_⟩
    intro a ha b hb t ht u hu
    obtain ⟨a', ha', t', ht', hkind⟩ := h.last
    obtain ⟨b', hb', u', hu', hkind'⟩ := h'.first
    obtain rfl := Option.mem_unique ha ha'
    obtain rfl := Option.mem_unique hb hb'
    obtain rfl := Option.mem_unique ht hkind
    obtain rfl := Option.mem_unique hu hkind'
    exact hmeets t ht' u hu'

theorem Runs.mono (h : Runs x y ls) (hopens : ∀ t ∈ x.opens, t ∈ z.opens)
    (hcloses : ∀ t ∈ y.closes, t ∈ w.closes) : Runs z w ls where
  spelled := h.spelled
  first := by
    obtain ⟨l, hl, t, ht, hkind⟩ := h.first
    exact ⟨l, hl, t, hopens t ht, hkind⟩
  last := by
    obtain ⟨l, hl, t, ht, hkind⟩ := h.last
    exact ⟨l, hl, t, hcloses t ht, hkind⟩
  meets := h.meets

theorem runs_flatten {xs : List Symbol} {lss : List (List Lexeme)}
    (h : List.Forall₂ (fun x ls => Runs x x ls) xs lss) (hmeets : xs.IsChain Symbol.Meets)
    (hfirst : x ∈ xs.head?) (hlast : y ∈ xs.getLast?) : Runs x y lss.flatten := by
  induction h generalizing x with
  | nil => cases hfirst
  | @cons x' ls xs lss hls hlss ih =>
      cases hfirst
      cases xs with
      | nil =>
          cases hlss
          cases hlast
          simpa using hls
      | cons z xs =>
          rw [List.isChain_cons_cons] at hmeets
          exact hls.append (ih hmeets.2 rfl (by simpa using hlast)) hmeets.1

/-- A tree for a symbol that cannot do without an annotation has an at sign in it. -/
theorem IsDerived.exists_atSign (h : t.IsDerived) (hsymbol : t.symbol? = some x)
    (hx : x.isAnnotated) : ∃ l ∈ t.lexemes, l.kind = some .atSign := by
  induction h using IsDerived.induction generalizing x with
  | @token kind gap text _ =>
      cases hsymbol
      obtain rfl := eq_of_beq hx
      exact ⟨_, List.mem_singleton_self _, rfl⟩
  | @node kind summary steps children _ hallows hfills _ _ ih =>
      cases hsymbol
      obtain ⟨step, hstep, hannotated⟩ := hallows.exists_annotated hx
      obtain ⟨child, hchild, hsymbol, -⟩ := hfills.exists_place hstep
      obtain ⟨l, hl, hkind⟩ := ih child hchild hsymbol hannotated
      exact ⟨l, mem_lexemesOf hchild hl, hkind⟩

/-- Where there is no annotation, a part of a type is made of others. -/
theorem isMadeOf_of_isBare {c : Construct} {summary : Summary} (hallows : c.Allows steps)
    (hfills : Fills steps children) (hderived : ∀ child ∈ children, child.2.IsDerived) (hc : c.isType)
    (hbare : (node c summary children).IsBare) : c.IsMadeOf (steps.map (·.symbol)) := by
  refine (hallows.isMadeOf hc).resolve_left ?_
  rintro ⟨step, hstep, hannotated⟩
  obtain ⟨child, hchild, hsymbol, -⟩ := hfills.exists_place hstep
  obtain ⟨l, hl, hkind⟩ := (hderived child hchild).exists_atSign hsymbol hannotated
  exact (isBare_of_mem hbare hchild l hl).1 hkind

/-- The lexemes of a part of a type are words and marks that meet. -/
theorem IsDerived.runs (h : t.IsDerived) (hsymbol : t.symbol? = some x) (hx : x.isType)
    (hbare : t.IsBare) : Runs x x t.lexemes := by
  induction h using IsDerived.induction generalizing x with
  | @token kind gap text hspells =>
      cases hsymbol
      refine ⟨?_, ?_, ?_, .singleton _⟩
      · intro l hl
        obtain rfl := List.mem_singleton.1 hl
        exact ⟨kind, rfl, hx, hspells⟩
      · exact ⟨_, rfl, kind, List.mem_singleton_self _, rfl⟩
      · exact ⟨_, rfl, kind, List.mem_singleton_self _, rfl⟩
  | @node kind summary steps children _ hallows hfills _ hchildren ih =>
      cases hsymbol
      have hbareChild : ∀ child ∈ children, child.2.IsBare := fun _ => isBare_of_mem hbare
      have hmade := isMadeOf_of_isBare hallows hfills hchildren hx hbare
      have hruns : List.Forall₂ (fun x ls => Runs x x ls) (steps.map (·.symbol))
          (children.map fun child => child.2.lexemes) := by
        have hplaces := hfills.forall₂ (hfills.isOwn_of_isBare hchildren hbareChild)
        rw [List.forall₂_map_left_iff, List.forall₂_map_right_iff, List.forall₂_iff_zip]
        refine ⟨hplaces.length_eq, fun {step child} hmem => ?_⟩
        obtain ⟨hstep, hchild⟩ := List.of_mem_zip hmem
        exact ih child hchild (List.forall₂_zip hplaces hmem)
          (hmade.parts _ (List.mem_map_of_mem hstep)) (hbareChild child hchild)
      obtain ⟨first, hfirst, hopens⟩ := hmade.first
      obtain ⟨last, hlast, hcloses⟩ := hmade.last
      rw [lexemes, lexemesOf_eq]
      exact (runs_flatten hruns hmade.meets hfirst hlast).mono hopens hcloses

end Tree

end EndpointAtlas.Syntax
