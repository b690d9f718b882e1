import EndpointAtlas.Syntax.Lexeme
import EndpointAtlas.Syntax.Tree
import Mathlib.Algebra.BigOperators.Group.List.Basic
import Mathlib.Algebra.GroupWithZero.Nat
import Mathlib.Data.List.Basic

/-!
# The text of a tree

A tree is read from its lexemes, with the blanks before them. The summary of a tree that is put together
tells how long its text is in bytes, and of the beginnings of one text no two have the same length.
-/

namespace EndpointAtlas.Syntax

open Grammar

/-! ### The length of a text -/

namespace Extent

variable {cs ds xs ys : List Char}

theorem bytes_ofChars (cs : List Char) : (ofChars cs).bytes = (cs.map Char.utf8Size).sum := by
  have hfold (step : Extent → Char → Extent) (hstep : ∀ e c, (step e c).bytes = e.bytes + c.utf8Size)
      (e : Extent) : (cs.foldl step e).bytes = e.bytes + (cs.map Char.utf8Size).sum := by
    induction cs generalizing e with
    | nil => rfl
    | cons c cs ih => rw [List.foldl_cons, ih, hstep, List.map_cons, List.sum_cons, Nat.add_assoc]
  exact (hfold _ (fun _ _ => rfl) zero).trans (Nat.zero_add _)

theorem bytes_ofChars_append (cs ds : List Char) :
    (ofChars (cs ++ ds)).bytes = (ofChars cs).bytes + (ofChars ds).bytes := by
  rw [bytes_ofChars, bytes_ofChars, bytes_ofChars, List.map_append, List.sum_append]

theorem eq_nil_of_bytes_eq_zero (h : (ofChars cs).bytes = 0) : cs = [] := by
  cases cs with
  | nil => rfl
  | cons c cs =>
      rw [bytes_ofChars, List.map_cons, List.sum_cons] at h
      have hpos := Char.utf8Size_pos c
      omega

/-- Two beginnings of one text are the same if they have the same length. -/
theorem eq_of_append_eq_append (h : cs ++ xs = ds ++ ys)
    (hbytes : (ofChars cs).bytes = (ofChars ds).bytes) : cs = ds := by
  obtain ⟨more, rfl, -⟩ | ⟨more, rfl, -⟩ := List.append_eq_append_iff.1 h
  · rw [bytes_ofChars_append] at hbytes
    have hmore : more = [] := eq_nil_of_bytes_eq_zero (by omega)
    rw [hmore, List.append_nil]
  · rw [bytes_ofChars_append] at hbytes
    have hmore : more = [] := eq_nil_of_bytes_eq_zero (by omega)
    rw [hmore, List.append_nil]

end Extent

/-! ### Lexemes -/

/-- The text that lexemes make up. -/
def Lexeme.source (ls : List Lexeme) : List Char := ls.flatMap fun l => l.gap ++ l.text

namespace Tree

mutual

/-- The lexemes that a tree was read from, in their order. -/
def lexemes : Tree → List Lexeme
  | .token kind gap text => [⟨gap, text, some kind⟩]
  | .missing _ => []
  | .stray gap text => [⟨gap, text, none⟩]
  | .node _ _ children => lexemesOf children
  | .skipped _ _ children => lexemesOf children

def lexemesOf : List (Label × Tree) → List Lexeme
  | [] => []
  | child :: rest => lexemesOfChild child ++ lexemesOf rest

def lexemesOfChild : Label × Tree → List Lexeme
  | (_, t) => t.lexemes

end

variable {children before after : List (Label × Tree)} {child : Label × Tree} {l : Lexeme}

theorem lexemesOf_eq (children : List (Label × Tree)) :
    lexemesOf children = (children.map fun child => child.2.lexemes).flatten := by
  induction children with
  | nil => rfl
  | cons child children ih =>
      rw [lexemesOf, lexemesOfChild, ih]
      rfl

theorem mem_lexemesOf (hchild : child ∈ children) (hl : l ∈ child.2.lexemes) :
    l ∈ lexemesOf children := by
  rw [lexemesOf_eq]
  exact List.mem_flatten_of_mem (List.mem_map_of_mem hchild) hl

/-! ### The text of pieces side by side -/

/-- The text that a tree was read from. -/
def source (t : Tree) : List Char := Lexeme.source t.lexemes

def sourceOf (pieces : List (Label × Tree)) : List Char := Lexeme.source (lexemesOf pieces)

theorem source_token (kind : Terminal) (gap text : List Char) :
    (token kind gap text).source = gap ++ text := by
  rw [source, lexemes, Lexeme.source, List.flatMap_singleton]

theorem source_stray (gap text : List Char) : (stray gap text).source = gap ++ text := by
  rw [source, lexemes, Lexeme.source, List.flatMap_singleton]

@[simp]
theorem source_missing (kind : Terminal) : (missing kind).source = [] := rfl

@[simp]
theorem source_ofChildren (kind : Construct) (bias : Int) (children : List (Label × Tree)) :
    (ofChildren kind bias children).source = sourceOf children := by
  rw [source, ofChildren, lexemes, sourceOf]

@[simp]
theorem source_skip (isOpen : Bool) (children : List (Label × Tree)) :
    (skip isOpen children).source = sourceOf children := by
  rw [source, skip, lexemes, sourceOf]

@[simp]
theorem sourceOf_nil : sourceOf [] = [] := rfl

@[simp]
theorem sourceOf_cons (child : Label × Tree) (children : List (Label × Tree)) :
    sourceOf (child :: children) = child.2.source ++ sourceOf children := by
  rw [sourceOf, lexemesOf, lexemesOfChild, Lexeme.source, List.flatMap_append]
  rfl

@[simp]
theorem sourceOf_append (before after : List (Label × Tree)) :
    sourceOf (before ++ after) = sourceOf before ++ sourceOf after := by
  induction before with
  | nil => rfl
  | cons child before ih => rw [List.cons_append, sourceOf_cons, sourceOf_cons, ih, List.append_assoc]

/-- The text of pieces hangs on their trees alone. -/
theorem sourceOf_congr (h : before.map (·.2) = after.map (·.2)) : sourceOf before = sourceOf after := by
  have hlexemes (children : List (Label × Tree)) :
      lexemesOf children = ((children.map (·.2)).map lexemes).flatten := by
    rw [lexemesOf_eq, List.map_map]
    rfl
  rw [sourceOf, sourceOf, hlexemes, hlexemes, h]

end Tree

/-! ### Summaries -/

/-- The length of the text that a summary is about, with the blanks before it. -/
def Summary.bytes (s : Summary) : Nat := s.gap.bytes + s.own.bytes

namespace Tree

theorem bytes_summarize (skipping : Bool) (bias : Int) (children : List (Label × Tree)) :
    (summarize skipping bias children).bytes =
      (children.map fun child => child.2.summary.bytes).sum := by
  -- The first child gives the gap of the whole, and nothing has been summed up before it.
  have hfold (step : Summary × Bool → Label × Tree → Summary × Bool)
      (hstep : ∀ acc child, (acc.2 → acc.1.bytes = 0) →
        (step acc child).1.bytes = acc.1.bytes + child.2.summary.bytes ∧ (step acc child).2 = false)
      (acc : Summary × Bool) (hacc : acc.2 → acc.1.bytes = 0) :
      (children.foldl step acc).1.bytes =
        acc.1.bytes + (children.map fun child => child.2.summary.bytes).sum := by
    induction children generalizing acc with
    | nil => rfl
    | cons child children ih =>
        obtain ⟨hbytes, hnext⟩ := hstep acc child hacc
        have hlater : (step acc child).2 → (step acc child).1.bytes = 0 := by simp [hnext]
        rw [List.foldl_cons, ih _ hlater, hbytes, List.map_cons, List.sum_cons, Nat.add_assoc]
  unfold summarize
  dsimp only
  split <;>
  · refine (hfold _ ?_ _ fun _ => rfl).trans (Nat.zero_add _)
    rintro ⟨acc, first⟩ ⟨label, t⟩ hacc
    refine ⟨?_, rfl⟩
    cases first with
    | false => exact (Nat.add_assoc _ _ _).symm
    | true => exact (Nat.zero_add _).symm.trans (congrArg (· + _) (hacc rfl).symm)

end Tree

end EndpointAtlas.Syntax
