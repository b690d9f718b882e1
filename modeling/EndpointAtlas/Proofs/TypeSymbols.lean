import EndpointAtlas.Proofs.Rules
import EndpointAtlas.Proofs.Spelling

/-!
# The tokens of a type

A type without annotations is made of words, of seven marks and of nothing else. The grammar settles
which of them can stand side by side: two words only as a bound and its type, and a question mark before
a word only if the word is `extends` or `super`. It is enough to know of each construct what tokens it
can begin and end with, and to look at each of its forms once.
-/

namespace EndpointAtlas.Grammar

open Text

/-! ### Words and marks -/

namespace Terminal

/-- The words of a type: names, primitive types and the two kinds of bounds. -/
def isTypeWord (t : Terminal) : Bool :=
  [identifier, byteWord, shortWord, intWord, longWord, charWord, floatWord, doubleWord, booleanWord,
    voidWord, extendsWord, superWord].contains t

/-- The marks of a type that no space comes before. -/
def isPlainMark (t : Terminal) : Bool :=
  [less, greater, openBracket, closeBracket, dot, comma].contains t

/-- The marks of a type after which blanks do not count. -/
def isOpeningMark (t : Terminal) : Bool := [less, openBracket, dot, comma].contains t

def isTypeMark (t : Terminal) : Bool := t == question || t.isPlainMark

/-- Whether two tokens can stand side by side in a type: one of them is a mark that is printed with the
same space whatever blanks there are, or both are words, or the second one is the bound of the first, a
question mark. -/
def Meets (t u : Terminal) : Bool :=
  t.isOpeningMark || u.isPlainMark || (t.isTypeWord || t == question) && u.isTypeWord

variable {t : Terminal} {text : List Char}

theorem isPlainMark_of_isOpeningMark (h : t.isOpeningMark) : t.isPlainMark ∧ t ≠ question := by
  simp only [isOpeningMark, List.contains_eq_mem, List.mem_cons, List.not_mem_nil, or_false,
    decide_eq_true_eq] at h
  obtain rfl | rfl | rfl | rfl := h <;> decide

theorem isTypeWord_of_isPlainMark (h : t.isPlainMark) : t.isTypeWord = false := by
  simp only [isPlainMark, List.contains_eq_mem, List.mem_cons, List.not_mem_nil, or_false,
    decide_eq_true_eq] at h
  obtain rfl | rfl | rfl | rfl | rfl | rfl := h <;> decide

theorem spelling?_typeWord : ∀ t ∈ all, t.isTypeWord → t = identifier ∨
    ∃ s ∈ t.spelling?, s.toList ≠ [] ∧ s.toList.all isIdentifierPart := by
  decide +kernel

/-- A word of a type is spelled with characters of identifiers. -/
theorem Spells.typeWord (h : t.Spells text) (ht : t.isTypeWord) :
    text ≠ [] ∧ ∀ c ∈ text, isIdentifierPart c := by
  obtain hidentifier | ⟨s, hs, hne, hparts⟩ := spelling?_typeWord t (mem_all t) ht
  · exact h.identifier hidentifier
  · rw [h.spelled s hs]
    exact ⟨hne, List.all_eq_true.1 hparts⟩

end Terminal

/-! ### What a construct begins and ends with -/

/-- The words that a type can begin with. -/
def typeWords : List Terminal :=
  [.identifier, .byteWord, .shortWord, .intWord, .longWord, .charWord, .floatWord, .doubleWord,
    .booleanWord, .voidWord]

namespace Construct

/-- The constructs that a type without annotations is made of. -/
def isType : Construct → Bool
  | .anyType | .unannotatedType | .integralType | .floatingPointType | .scopedTypeIdentifier
  | .genericType | .typeArguments | .typeArgumentTail | .wildcard | .wildcardBounds | .arrayType
  | .dimensions | .dimensionPairs => true
  | _ => false

/-- The constructs that cannot do without an annotation. -/
def isAnnotated : Construct → Bool
  | .annotations | .annotationItem | .annotationMarker | .annotationCall | .annotatedType => true
  | _ => false

/-- The tokens that a part of a type can begin with. -/
def opens : Construct → List Terminal
  | .anyType | .unannotatedType | .integralType | .floatingPointType | .scopedTypeIdentifier
  | .genericType | .arrayType => typeWords
  | .typeArguments => [.less]
  | .typeArgumentTail => [.comma]
  | .wildcard => [.question]
  | .wildcardBounds => [.extendsWord, .superWord]
  | .dimensions | .dimensionPairs => [.openBracket]
  | _ => []

/-- The tokens that a part of a type can end with. -/
def closes : Construct → List Terminal
  | .integralType | .floatingPointType | .scopedTypeIdentifier => typeWords
  | .genericType | .typeArguments => [.greater]
  | .arrayType | .dimensions | .dimensionPairs => [.closeBracket]
  | .anyType | .unannotatedType | .wildcardBounds => .greater :: .closeBracket :: typeWords
  | .wildcard | .typeArgumentTail => .question :: .greater :: .closeBracket :: typeWords
  | _ => []

end Construct

namespace Symbol

def isType : Symbol → Bool
  | terminal t => t.isTypeWord || t.isTypeMark
  | construct c => c.isType

/-- Whether there is an at sign in all that the symbol stands for. -/
def isAnnotated : Symbol → Bool
  | terminal t => t == .atSign
  | construct c => c.isAnnotated

def opens : Symbol → List Terminal
  | terminal t => [t]
  | construct c => c.opens

def closes : Symbol → List Terminal
  | terminal t => [t]
  | construct c => c.closes

/-- Whether all that one symbol ends with can stand before all that another begins with. -/
def Meets (x y : Symbol) : Prop := ∀ t ∈ x.closes, ∀ u ∈ y.opens, t.Meets u

instance (x y : Symbol) : Decidable (x.Meets y) :=
  inferInstanceAs (Decidable (∀ t ∈ x.closes, ∀ u ∈ y.opens, t.Meets u))

end Symbol

/-! ### What the grammar says of them -/

/-- How the symbols of a form make up a part of a type: all are such parts, each can stand before the
next, and the form begins and ends as its construct does. -/
structure Construct.IsMadeOf (c : Construct) (xs : List Symbol) : Prop where
  parts : ∀ x ∈ xs, x.isType
  meets : xs.IsChain Symbol.Meets
  first : ∃ x ∈ xs.head?, ∀ t ∈ x.opens, t ∈ c.opens
  last : ∃ x ∈ xs.getLast?, ∀ t ∈ x.closes, t ∈ c.closes

instance (c : Construct) (xs : List Symbol) : Decidable (c.IsMadeOf xs) :=
  decidable_of_iff (((∀ x ∈ xs, x.isType) ∧ xs.IsChain Symbol.Meets) ∧
      (∃ x ∈ xs.head?, ∀ t ∈ x.opens, t ∈ c.opens) ∧
      ∃ x ∈ xs.getLast?, ∀ t ∈ x.closes, t ∈ c.closes)
    ⟨fun h => ⟨h.1.1, h.1.2, h.2.1, h.2.2⟩, fun h => ⟨⟨h.parts, h.meets⟩, h.first, h.last⟩⟩

theorem type_forms : ∀ c ∈ Construct.all, c.isType → ∀ f ∈ forms c,
    ∀ steps ∈ Form.sequences f.parts, (∃ s ∈ steps, s.symbol.isAnnotated) ∨
      c.IsMadeOf (steps.map (·.symbol)) := by
  decide +kernel

theorem annotated_forms : ∀ c ∈ Construct.all, c.isAnnotated → ∀ f ∈ forms c,
    ∀ steps ∈ Form.sequences f.parts, ∃ s ∈ steps, s.symbol.isAnnotated := by
  decide +kernel

section

variable {c : Construct} {steps : List Step}

/-- A rule for a part of a type has parts of types side by side, or an annotation among its steps. -/
theorem Construct.Allows.isMadeOf (h : c.Allows steps) (hc : c.isType) :
    (∃ s ∈ steps, s.symbol.isAnnotated) ∨ c.IsMadeOf (steps.map (·.symbol)) := by
  obtain ⟨f, hf, hsteps⟩ := h
  exact type_forms c (Construct.mem_all c) hc f hf steps hsteps

theorem Construct.Allows.exists_annotated (h : c.Allows steps) (hc : c.isAnnotated) :
    ∃ s ∈ steps, s.symbol.isAnnotated := by
  obtain ⟨f, hf, hsteps⟩ := h
  exact annotated_forms c (Construct.mem_all c) hc f hf steps hsteps

end

end EndpointAtlas.Grammar
