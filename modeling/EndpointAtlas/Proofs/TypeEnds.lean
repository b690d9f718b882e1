import EndpointAtlas.Declaration.TypeText
import EndpointAtlas.Proofs.TypeNames

/-!
# The ends of types and dimensions

A type without annotations of its own ends in a word or a closing bracket. Dimensions begin with an opening
bracket or with the at sign of an annotation. Each rule of the grammar bears this out by its last or its
first step alone, and whatever plays the role of a type or of dimensions stands for such a rule.
-/

namespace EndpointAtlas

open Grammar Text

namespace Grammar

/-- What a type without annotations of its own begins with. -/
def Symbol.beginsType : Symbol → Bool
  | .terminal t => t.isTypeWord
  | .construct c => [.unannotatedType, .integralType, .floatingPointType, .scopedTypeIdentifier,
      .genericType, .arrayType].contains c

/-- What a type without annotations of its own can end with. -/
def Symbol.endsType : Symbol → Bool
  | .terminal t => t.isTypeWord || t == .greater || t == .closeBracket
  | .construct c => [.unannotatedType, .integralType, .floatingPointType, .scopedTypeIdentifier,
      .genericType, .typeArguments, .arrayType, .dimensions, .dimensionPairs].contains c

/-- What dimensions begin with. -/
def Symbol.beginsDimensions : Symbol → Bool
  | .terminal t => t == .openBracket || t == .atSign
  | .construct c => [.dimensions, .dimensionPairs, .annotations, .annotationItem, .annotationMarker,
      .annotationCall].contains c

/-- The construct that alone plays a role, for the roles in which a part of a type stands. -/
def Role.player? : Role → Option Construct
  | .type => some .unannotatedType
  | .dimensions => some .dimensions
  | _ => none

/-- Whether all rules for the constructs among some symbols begin with such symbols. -/
def ClosedFirst (among : Symbol → Bool) : Prop :=
  ∀ c steps, among (.construct c) → c.Allows steps → ∃ s rest, steps = s :: rest ∧ among s.symbol

/-- Whether all rules for the constructs among some symbols end with such symbols. -/
def ClosedLast (among : Symbol → Bool) : Prop :=
  ∀ c steps, among (.construct c) → c.Allows steps → ∃ init s, steps = init ++ [s] ∧ among s.symbol

/-! ### What the grammar says of them -/

theorem player_forms : ∀ c ∈ Construct.all, ∀ f ∈ forms c, ∀ p ∈ f.parts, ∀ s ∈ p.choices,
    ∀ r ∈ s.role, ∀ d ∈ r.player?, s.symbol = .construct d := by
  decide +kernel

theorem closedFirst_of_forms {among : Symbol → Bool} (h : ∀ c ∈ Construct.all, among (.construct c) →
    ∀ f ∈ forms c, ∀ steps ∈ Form.sequences f.parts, ∃ s ∈ steps.head?, among s.symbol) :
    ClosedFirst among := by
  rintro c steps hc ⟨f, hf, hsteps⟩
  obtain ⟨s, hs, hamong⟩ := h c (Construct.mem_all c) hc f hf steps hsteps
  obtain ⟨rest, hrest⟩ := List.head?_eq_some_iff.1 hs
  exact ⟨s, rest, hrest, hamong⟩

theorem closedLast_of_forms {among : Symbol → Bool} (h : ∀ c ∈ Construct.all, among (.construct c) →
    ∀ f ∈ forms c, ∀ steps ∈ Form.sequences f.parts, ∃ s ∈ steps.getLast?, among s.symbol) :
    ClosedLast among := by
  rintro c steps hc ⟨f, hf, hsteps⟩
  obtain ⟨s, hs, hamong⟩ := h c (Construct.mem_all c) hc f hf steps hsteps
  obtain ⟨init, hinit⟩ := List.getLast?_eq_some_iff.1 hs
  exact ⟨init, s, hinit, hamong⟩

theorem closedFirst_beginsType : ClosedFirst Symbol.beginsType :=
  closedFirst_of_forms (by decide +kernel)

theorem closedLast_endsType : ClosedLast Symbol.endsType := closedLast_of_forms (by decide +kernel)

theorem closedFirst_beginsDimensions : ClosedFirst Symbol.beginsDimensions :=
  closedFirst_of_forms (by decide +kernel)

theorem Construct.Allows.symbol_of_player {c d : Construct} {steps : List Step} {step : Step} {r : Role}
    (h : c.Allows steps) (hstep : step ∈ steps) (hrole : step.role = some r) (hr : r.player? = some d) :
    step.symbol = .construct d := by
  obtain ⟨f, hf, p, hp, hchoice⟩ := h.exists_choice hstep
  exact player_forms c (Construct.mem_all c) f hf p hp step hchoice r hrole d hr

/-! ### The characters there -/

section

variable {t : Terminal} {text : List Char}

/-- The last character of a token that a type ends with is neither white space nor a mark that is printed
without a space after it. -/
theorem Terminal.Spells.exists_concat (h : t.Spells text) (ht : Symbol.endsType (.terminal t)) :
    ∃ init l, text = init ++ [l] ∧ isWhitespace l = false ∧ l ≠ ',' ∧ TypeText.isOpening l = false := by
  rw [Symbol.endsType, Bool.or_eq_true, Bool.or_eq_true, beq_iff_eq, beq_iff_eq] at ht
  obtain (hword | rfl) | rfl := ht
  · obtain ⟨hne, hparts⟩ := h.typeWord hword
    have hpart := hparts _ (List.getLast_mem hne)
    have hopening : ∀ c ∈ ['<', '[', '.'], text.getLast hne ≠ c := by
      intro c hc heq
      rw [heq] at hpart
      simp only [List.mem_cons, List.not_mem_nil, or_false] at hc
      obtain rfl | rfl | rfl := hc <;> exact absurd hpart (by decide)
    refine ⟨_, _, (List.dropLast_concat_getLast hne).symm, isWhitespace_of_isIdentifierPart hpart,
      (ne_of_isIdentifierPart hpart).2, ?_⟩
    simpa [TypeText.isOpening, and_assoc] using hopening
  · exact ⟨[], '>', h.spelled _ rfl, by decide⟩
  · exact ⟨[], ']', h.spelled _ rfl, by decide⟩

theorem Terminal.Spells.exists_cons (h : t.Spells text) (ht : Symbol.beginsDimensions (.terminal t)) :
    ∃ c, text = [c] ∧ (c = '[' ∨ c = '@') := by
  rw [Symbol.beginsDimensions, Bool.or_eq_true, beq_iff_eq, beq_iff_eq] at ht
  obtain rfl | rfl := ht
  · exact ⟨'[', h.spelled _ rfl, Or.inl rfl⟩
  · exact ⟨'@', h.spelled _ rfl, Or.inr rfl⟩

end

end Grammar

namespace Syntax

open Node

namespace Tree

variable {t : Tree} {x : Symbol} {among : Symbol → Bool} {label : Label} {n : Node} {l : Lexeme}
  {init rest : List Lexeme} {r : Role} {d : Construct}

/-! ### The first token and the last token of a tree -/

/-- A tree begins with a token for one of the symbols, with the blanks that its nodes begin with. -/
theorem IsDerived.exists_first (h : t.IsDerived) (hneat : t.Neat) (hclosed : ClosedFirst among)
    (hsymbol : t.symbol? = some x) (hx : among x) : ∃ l rest u, t.lexemes = l :: rest ∧
      among (.terminal u) ∧ u.Spells l.text ∧ ∀ label, ∃ n ns, ofTree label t = n :: ns ∧ n.gap = l.gap := by
  induction h using IsDerived.induction generalizing x with
  | @token kind gap text hspells =>
      cases hsymbol
      exact ⟨_, [], kind, rfl, hx, hspells, fun label => ⟨_, [], rfl, rfl⟩⟩
  | @node kind summary steps children _ hallows hfills _ hchildren ih =>
      cases hsymbol
      obtain ⟨s, later, rfl, hs⟩ := hclosed kind steps hx hallows
      cases hneat with
      | node hfirst hneat =>
      obtain ⟨u, others, rfl, hu, -⟩ := hfills.exists_head hfirst
      obtain ⟨l, rest, v, hlexemes, hv, hspells, hnodes⟩ :=
        ih _ List.mem_cons_self (hneat _ List.mem_cons_self) hu hs
      refine ⟨l, rest ++ lexemesOf others, v, ?_, hv, hspells, fun label => ?_⟩
      · rw [lexemes, lexemesOf, lexemesOfChild, hlexemes, List.cons_append]
      · obtain ⟨n, ns, hns, hgap⟩ := hnodes { role := s.role, shown := s.shown }
        have hall : ofTrees (({ role := s.role, shown := s.shown }, u) :: others) =
            n :: (ns ++ ofTrees others) := by
          rw [ofTrees, ofChild, hns, List.cons_append]
        rw [ofTree, hall]
        split
        · exact ⟨giveRole label.role n, _, List.map_cons, (gap_giveRole _ n).trans hgap⟩
        · exact ⟨_, [], rfl, hgap⟩

theorem IsDerived.exists_last (h : t.IsDerived) (hclosed : ClosedLast among)
    (hsymbol : t.symbol? = some x) (hx : among x) :
    ∃ init l u, t.lexemes = init ++ [l] ∧ among (.terminal u) ∧ u.Spells l.text := by
  induction h using IsDerived.induction generalizing x with
  | @token kind gap text hspells =>
      cases hsymbol
      exact ⟨[], _, kind, rfl, hx, hspells⟩
  | @node kind summary steps children _ hallows hfills hlast hchildren ih =>
      cases hsymbol
      obtain ⟨inits, s, rfl, hs⟩ := hclosed kind steps hx hallows
      obtain ⟨before, u, rfl, hu, -⟩ := hfills.exists_last hlast
      obtain ⟨init, l, v, hlexemes, hv, hspells⟩ :=
        ih _ (List.mem_append_right _ List.mem_cons_self) hu hs
      refine ⟨lexemesOf before ++ init, l, v, ?_, hv, hspells⟩
      rw [lexemes, lexemesOf_eq, List.map_append, List.flatten_append, ← lexemesOf_eq,
        List.map_singleton, List.flatten_singleton, hlexemes, List.append_assoc]

/-! ### The text of a tree that shows as one node -/

theorem text_eq_of_cons (hnode : ofTree label t = [n]) (hlexemes : t.lexemes = l :: rest)
    (hgap : n.gap = l.gap) : n.text = l.text ++ Lexeme.source rest := by
  have hsource : n.source = l.gap ++ (l.text ++ Lexeme.source rest) := by
    rw [← sourceOf_singleton, ← hnode, sourceOf_ofTree, hlexemes, Lexeme.source, List.flatMap_cons,
      List.append_assoc, Lexeme.source]
  rw [Node.text, hsource, hgap, List.drop_left]

theorem exists_text_eq_of_concat (hnode : ofTree label t = [n]) (hlexemes : t.lexemes = init ++ [l])
    (hgap : ∀ first ∈ t.lexemes.head?, n.gap = first.gap) : ∃ before, n.text = before ++ l.text := by
  rw [hlexemes] at hgap
  cases init with
  | nil =>
      refine ⟨[], (text_eq_of_cons hnode hlexemes (hgap l rfl)).trans ?_⟩
      exact List.append_nil _
  | cons first init =>
      refine ⟨first.text ++ Lexeme.source init ++ l.gap, ?_⟩
      have hlast : Lexeme.source (init ++ [l]) = Lexeme.source init ++ (l.gap ++ l.text) := by
        rw [Lexeme.source, List.flatMap_append, List.flatMap_singleton, Lexeme.source]
      rw [text_eq_of_cons hnode hlexemes (hgap first rfl)]
      change _ ++ Lexeme.source (init ++ [l]) = _
      rw [hlast]
      simp only [List.append_assoc]

/-! ### Types and dimensions -/

/-- Whatever plays the role of a type or of dimensions shows as one node. -/
theorem IsDerived.exists_singleton (h : t.IsDerived) (hneat : t.Neat) (hr : r.player? = some d)
    (hsymbol : t.symbol? = some (.construct d)) (label : Label) : ∃ n, ofTree label t = [n] := by
  cases r <;> cases hr
  · obtain ⟨n, hn, -⟩ := h.exists_unannotated hneat hsymbol
    cases h using IsDerived.induction with
    | token => cases hsymbol
    | node =>
        cases hsymbol
        have hhidden : Construct.unannotatedType.hidden := rfl
        rw [ofTree_of_hidden hhidden] at hn
        exact ⟨giveRole label.role n, by rw [ofTree, if_pos hhidden, hn, List.map_singleton]⟩
  · obtain ⟨broken, ns, hsingle⟩ := ofTree_of_shown hsymbol rfl label
    exact ⟨_, hsingle⟩

end Tree

namespace Node

variable {n m : Node} {r : Role} {d : Construct}

/-- The tree that a node in the role of a type or of dimensions shows. -/
theorem IsDerived.exists_tree (h : n.IsDerived) (hm : m ∈ n.children) (hrole : m.role = some r)
    (hr : r.player? = some d) : ∃ label t, t.IsDerived ∧ t.Neat ∧
      t.symbol? = some (.construct d) ∧ ofTree label t = [m] := by
  obtain ⟨c, steps, step, t, hallows, hstep, hown, ht, hneat, hsymbol, hmem⟩ := h.exists_step hm hrole
  rw [hallows.symbol_of_player hstep hown hr] at hsymbol
  obtain ⟨k, hk⟩ := ht.exists_singleton hneat hr hsymbol { role := step.role, shown := step.shown }
  rw [hk, List.mem_singleton] at hmem
  exact ⟨_, t, ht, hneat, hsymbol, hmem ▸ hk⟩

/-- A type ends in a character that is neither white space nor a mark that is printed without a space
after it. -/
theorem IsDerived.exists_type_concat (h : n.IsDerived) (hm : m ∈ n.children)
    (hrole : m.role = some .type) : ∃ init l, m.text = init ++ [l] ∧ isWhitespace l = false ∧ l ≠ ',' ∧
      TypeText.isOpening l = false := by
  obtain ⟨label, t, ht, hneat, hsymbol, hnode⟩ := h.exists_tree hm hrole rfl
  obtain ⟨first, rest, -, hfirst, -, -, hnodes⟩ :=
    ht.exists_first hneat closedFirst_beginsType hsymbol rfl
  obtain ⟨init, l, u, hlexemes, hu, hspells⟩ := ht.exists_last closedLast_endsType hsymbol rfl
  obtain ⟨k, ks, hk, hgap⟩ := hnodes label
  have hfirstGap : ∀ l ∈ t.lexemes.head?, m.gap = l.gap := by
    rw [hnode] at hk
    cases hk
    rw [hfirst]
    rintro l ⟨⟩
    exact hgap
  obtain ⟨before, hbefore⟩ := Tree.exists_text_eq_of_concat hnode hlexemes hfirstGap
  obtain ⟨init, l, htext, hl⟩ := hspells.exists_concat hu
  exact ⟨before ++ init, l, by rw [hbefore, htext, List.append_assoc], hl⟩

/-- Dimensions begin with a bracket or with an annotation. -/
theorem IsDerived.exists_dimensions_cons (h : n.IsDerived) (hm : m ∈ n.children)
    (hrole : m.role = some .dimensions) : ∃ c cs, m.text = c :: cs ∧ (c = '[' ∨ c = '@') := by
  obtain ⟨label, t, ht, hneat, hsymbol, hnode⟩ := h.exists_tree hm hrole rfl
  obtain ⟨l, rest, u, hlexemes, hu, hspells, hnodes⟩ :=
    ht.exists_first hneat closedFirst_beginsDimensions hsymbol rfl
  obtain ⟨k, ks, hk, hgap⟩ := hnodes label
  rw [hnode] at hk
  cases hk
  obtain ⟨c, htext, hc⟩ := hspells.exists_cons hu
  exact ⟨c, _, by rw [Tree.text_eq_of_cons hnode hlexemes hgap, htext, List.singleton_append], hc⟩

end Node

end Syntax

end EndpointAtlas
