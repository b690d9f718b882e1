import EndpointAtlas.Proofs.Rules
import EndpointAtlas.Proofs.Spelling
import EndpointAtlas.Text.Whitespace

/-!
# Symbols with a firm end

The names, types and annotations of Java end in a word or a bracket: their last character is neither
white space nor a comma. The grammar settles this for a few constructs at once, each by the last part of
its forms.
-/

namespace EndpointAtlas

open Grammar Text

namespace Text

variable {cs : List Char} {c : Char}

/-- Whether a text ends in a character that is neither white space nor a comma. -/
def EndsFirm (cs : List Char) : Prop :=
  ∃ init last, cs = init ++ [last] ∧ isWhitespace last = false ∧ last ≠ ','

theorem EndsFirm.append_left (h : EndsFirm cs) (before : List Char) : EndsFirm (before ++ cs) := by
  obtain ⟨init, last, rfl, hlast⟩ := h
  exact ⟨before ++ init, last, (List.append_assoc _ _ _).symm, hlast⟩

theorem EndsFirm.exists_mem (h : EndsFirm cs) : ∃ c ∈ cs, isWhitespace c = false := by
  obtain ⟨init, last, rfl, hlast, -⟩ := h
  exact ⟨last, List.mem_append_right _ List.mem_cons_self, hlast⟩

/-! ### White space in identifiers -/

/-- The ranges of white space from U+0080 on. -/
def blanks : List (Nat × Nat) :=
  [(0x85, 0x85), (0xA0, 0xA0), (0x1680, 0x1680), (0x2000, 0x200A), (0x2028, 0x2029),
    (0x202F, 0x202F), (0x205F, 0x205F), (0x3000, 0x3000)]

theorem blanks_apart : blanks.all (fun b =>
    (identifierStarts.toList ++ identifierExtenders.toList).all fun r =>
      b.2 < r.1 || r.2 < b.1) := by
  decide +kernel

theorem isIdentifierPart_blank :
    ∀ n ∈ [9, 10, 11, 12, 13, 32], isIdentifierPart (Char.ofNat n) = false := by decide

theorem exists_of_inRanges {ranges : Array (Nat × Nat)} {n : Nat} (h : inRanges ranges n) :
    ∃ r ∈ ranges.toList, r.1 ≤ n ∧ n ≤ r.2 := by
  rw [inRanges, ← Array.any_toList, List.any_eq_true] at h
  obtain ⟨r, hr, hin⟩ := h
  exact ⟨r, hr, by simpa using hin⟩

theorem isWhitespace_of_isIdentifierPart (h : isIdentifierPart c) : isWhitespace c = false := by
  rw [← Bool.not_eq_true]
  intro hblank
  simp only [isWhitespace, Bool.or_eq_true, Bool.and_eq_true, decide_eq_true_eq, beq_iff_eq] at hblank
  by_cases hlow : c.toNat < 0x80
  · have hmem : c.toNat ∈ [9, 10, 11, 12, 13, 32] := by
      simp only [List.mem_cons, List.not_mem_nil, or_false]
      omega
    have hpart := isIdentifierPart_blank _ hmem
    rw [Char.ofNat_toNat, h] at hpart
    cases hpart
  · have hrange : ∃ b ∈ blanks, b.1 ≤ c.toNat ∧ c.toNat ≤ b.2 := by
      simp only [blanks, List.mem_cons, List.not_mem_nil, or_false, exists_eq_or_imp, exists_eq_left]
      omega
    obtain ⟨b, hb, hbn⟩ := hrange
    rw [isIdentifierPart, if_neg hlow, Bool.or_eq_true, Bool.or_eq_true, beq_iff_eq] at h
    have hpart : ∃ r ∈ identifierStarts.toList ++ identifierExtenders.toList,
        r.1 ≤ c.toNat ∧ c.toNat ≤ r.2 := by
      obtain (hcent | hstart) | hextender := h
      · omega
      · obtain ⟨r, hr, hin⟩ := exists_of_inRanges hstart
        exact ⟨r, List.mem_append_left _ hr, hin⟩
      · obtain ⟨r, hr, hin⟩ := exists_of_inRanges hextender
        exact ⟨r, List.mem_append_right _ hr, hin⟩
    obtain ⟨r, hr, hrn⟩ := hpart
    have hapart := List.all_eq_true.1 (List.all_eq_true.1 blanks_apart b hb) r hr
    rw [Bool.or_eq_true, decide_eq_true_eq, decide_eq_true_eq] at hapart
    omega

theorem ne_of_isIdentifierPart (h : isIdentifierPart c) : c ≠ '.' ∧ c ≠ ',' := by
  constructor <;> (rintro rfl; exact absurd h (by decide))

end Text

namespace Grammar

/-- Whether the spelling of a terminal has a firm end. That of an identifier has one too. -/
def Terminal.isFirm (t : Terminal) : Bool :=
  t == .identifier || match t.spelling? with
    | some s => s.toList.getLast?.any fun c => !isWhitespace c && c != ','
    | none => false

/-- The constructs that are read as names, as types or as annotations, and their parts. -/
def Construct.isFirm : Construct → Bool
  | .reservedIdentifier | .scopedIdentifier
  | .unannotatedType | .integralType | .floatingPointType | .scopedTypeIdentifier | .genericType
  | .typeArguments | .arrayType | .dimensions | .dimensionPairs
  | .annotations | .annotationItem | .annotationMarker | .annotationCall
  | .annotationArgumentList => true
  | _ => false

def Symbol.isFirm : Symbol → Bool
  | .terminal t => t.isFirm
  | .construct c => c.isFirm

/-- The roles that are played by names and types. -/
def Role.isFirm : Role → Bool
  | .name | .type => true
  | _ => false

/-! ### What the grammar says of them -/

theorem firm_last : ∀ c ∈ Construct.all, c.isFirm → ∀ f ∈ forms c,
    ∃ p ∈ f.parts.getLast?, p.required ∧ ∀ s ∈ p.choices, s.symbol.isFirm := by
  decide +kernel

theorem firm_hidden : ∀ c ∈ Construct.all, c.isFirm → c.hidden → ∀ f ∈ forms c,
    ∀ p ∈ f.parts, ∀ s ∈ p.choices, s.symbol.isFirm := by
  decide +kernel

theorem firm_role : ∀ c ∈ Construct.all, ∀ f ∈ forms c, ∀ p ∈ f.parts, ∀ s ∈ p.choices,
    ∀ r ∈ s.role, r.isFirm → s.symbol.isFirm := by
  decide +kernel

def Symbol.isShown : Symbol → Bool
  | .terminal _ => true
  | .construct c => !c.hidden

/-- The parts of a class or an interface all show, and only an identifier is its name. -/
theorem identifier_name : ∀ c ∈ [Construct.classDeclaration, .interfaceDeclaration], ∀ f ∈ forms c,
    ∀ p ∈ f.parts, ∀ s ∈ p.choices, s.symbol.isShown ∧
      (s.role = some .name → s.symbol = .terminal .identifier) := by
  decide +kernel

/-- The parts of a spread parameter that have no firm end. -/
theorem firm_spread : ∀ f ∈ forms .spreadParameter, ∀ p ∈ f.parts, ∀ s ∈ p.choices,
    s.symbol.isFirm ∨ s.symbol = .construct .modifiers ∨
      s.symbol = .construct .variableDeclarator := by
  decide +kernel

section

variable {c : Construct} {steps : List Step} {step : Step} {t : Terminal} {text : List Char}

theorem Construct.Allows.exists_concat (h : c.Allows steps) (hc : c.isFirm) :
    ∃ init step, steps = init ++ [step] ∧ step.symbol.isFirm := by
  obtain ⟨f, hf, hsteps⟩ := h
  obtain ⟨p, hlast, hrequired, hfirm⟩ := firm_last c (Construct.mem_all c) hc f hf
  obtain ⟨init, step, hstep, rfl⟩ := Form.exists_concat_of_getLast? hsteps hlast hrequired
  exact ⟨init, step, rfl, hfirm step hstep⟩

theorem Construct.Allows.isFirm_of_hidden (h : c.Allows steps) (hc : c.isFirm) (hhidden : c.hidden)
    (hstep : step ∈ steps) : step.symbol.isFirm := by
  obtain ⟨f, hf, p, hp, hchoice⟩ := h.exists_choice hstep
  exact firm_hidden c (Construct.mem_all c) hc hhidden f hf p hp step hchoice

theorem Construct.Allows.isFirm_of_role (h : c.Allows steps) (hstep : step ∈ steps) {r : Role}
    (hrole : step.role = some r) (hr : r.isFirm) : step.symbol.isFirm := by
  obtain ⟨f, hf, p, hp, hchoice⟩ := h.exists_choice hstep
  exact firm_role c (Construct.mem_all c) f hf p hp step hchoice r hrole hr

theorem Construct.Allows.identifier_of_name (h : c.Allows steps)
    (hc : c = .classDeclaration ∨ c = .interfaceDeclaration) (hstep : step ∈ steps) :
    step.symbol.isShown ∧ (step.role = some .name → step.symbol = .terminal .identifier) := by
  obtain ⟨f, hf, p, hp, hchoice⟩ := h.exists_choice hstep
  exact identifier_name c (by simpa using hc) f hf p hp step hchoice

theorem Construct.Allows.isFirm_of_spread (h : Construct.spreadParameter.Allows steps)
    (hstep : step ∈ steps) : step.symbol.isFirm ∨ step.symbol = .construct .modifiers ∨
      step.symbol = .construct .variableDeclarator := by
  obtain ⟨f, hf, p, hp, hchoice⟩ := h.exists_choice hstep
  exact firm_spread f hf p hp step hchoice

theorem Terminal.Spells.endsFirm (h : t.Spells text) (ht : t.isFirm) : EndsFirm text := by
  rw [Terminal.isFirm, Bool.or_eq_true, beq_iff_eq] at ht
  obtain rfl | ht := ht
  · obtain ⟨hne, hparts⟩ := h.identifier rfl
    have hlast := hparts _ (List.getLast_mem hne)
    exact ⟨_, _, (List.dropLast_concat_getLast hne).symm, isWhitespace_of_isIdentifierPart hlast,
      (ne_of_isIdentifierPart hlast).2⟩
  · split at ht
    · next s hs =>
      rw [h.spelled s hs]
      obtain ⟨last, hlast, hfirm⟩ := (Option.any_eq_true _ _).1 ht
      obtain ⟨init, hinit⟩ := List.getLast?_eq_some_iff.1 hlast
      rw [Bool.and_eq_true, Bool.not_eq_true', bne_iff_ne] at hfirm
      exact ⟨init, last, hinit, hfirm⟩
    · cases ht

end

end Grammar

end EndpointAtlas
