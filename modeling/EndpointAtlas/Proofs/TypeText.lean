import EndpointAtlas.Declaration.TypeText
import Mathlib.Data.List.Chain

/-!
# Printed type expressions

A text that was printed is its own printed form. Two printed texts one after the other are the printed
form of both together, unless the first one ends in a comma.
-/

namespace EndpointAtlas.TypeText

open Text

variable {last : Option Char} {blank : Bool} {c l : Char} {cs ds init rest : List Char}

/-! ### One character -/

theorem layout_cons_whitespace (hc : isWhitespace c) :
    layout last blank (c :: cs) = layout last true cs := by
  rw [layout, if_pos hc]

theorem layout_cons_spaced (hc : isWhitespace c = false) (h : spaced last blank c) :
    layout last blank (c :: cs) = ' ' :: c :: layout (some c) false cs := by
  rw [layout, if_neg (by simp [hc]), if_pos h]

theorem layout_cons_joined (hc : isWhitespace c = false) (h : spaced last blank c = false) :
    layout last blank (c :: cs) = c :: layout (some c) false cs := by
  rw [layout, if_neg (by simp [hc]), if_neg (by simp [h])]

theorem isWhitespace_space : isWhitespace ' ' := by decide

/-- A space is not printed less often where a blank was read. -/
theorem spaced_true (h : spaced last blank c) : spaced last true c := by
  cases last with
  | none => cases h
  | some l =>
      rw [spaced, Bool.or_eq_true, Bool.and_eq_true, Bool.and_eq_true] at h ⊢
      exact h.imp_right fun ⟨⟨_, hmark⟩, hopening⟩ => ⟨⟨rfl, hmark⟩, hopening⟩

theorem spaced_false (h : spaced last blank c = false) : spaced last false c = false := by
  cases last with
  | none => rfl
  | some l =>
      rw [spaced, Bool.or_eq_false_iff] at h
      rw [spaced, h.1, Bool.false_and, Bool.false_and, Bool.or_self]

/-! ### Printing twice -/

/-- What is printed with one space or none before each character stays as it is. -/
theorem layout_layout (last : Option Char) (blank : Bool) (cs : List Char) :
    layout last false (layout last blank cs) = layout last blank cs := by
  induction cs generalizing last blank with
  | nil => rfl
  | cons c cs ih =>
      by_cases hc : isWhitespace c
      · rw [layout_cons_whitespace hc]
        exact ih last true
      rw [Bool.not_eq_true] at hc
      by_cases hspaced : spaced last blank c
      · rw [layout_cons_spaced hc hspaced, layout_cons_whitespace isWhitespace_space,
          layout_cons_spaced hc (spaced_true hspaced), ih]
      · rw [Bool.not_eq_true] at hspaced
        rw [layout_cons_joined hc hspaced, layout_cons_joined hc (spaced_false hspaced), ih]

theorem print_print (cs : List Char) : print (print cs) = print cs := layout_layout none false cs

/-! ### The characters printed -/

theorem eq_space_of_mem_layout (hmem : c ∈ layout last blank cs) (hc : isWhitespace c) : c = ' ' := by
  induction cs generalizing last blank with
  | nil => cases hmem
  | cons d cs ih =>
      have hne (hd : isWhitespace d = false) : c ≠ d := by
        rintro rfl
        rw [hd] at hc
        cases hc
      by_cases hd : isWhitespace d
      · rw [layout_cons_whitespace hd] at hmem
        exact ih hmem
      rw [Bool.not_eq_true] at hd
      by_cases hspaced : spaced last blank d
      · rw [layout_cons_spaced hd hspaced, List.mem_cons, List.mem_cons] at hmem
        obtain heq | heq | hmem := hmem
        · exact heq
        · exact absurd heq (hne hd)
        · exact ih hmem
      · rw [Bool.not_eq_true] at hspaced
        rw [layout_cons_joined hd hspaced, List.mem_cons] at hmem
        exact ih (hmem.resolve_left (hne hd))

theorem isChain_cons_of_left {R : Char → Char → Prop} (hc : ∀ d, R c d) (hcs : cs.IsChain R) :
    (c :: cs).IsChain R := by
  cases cs with
  | nil => exact .singleton c
  | cons d ds => exact .cons_cons (hc d) hcs

/-- After a space comes a character that is none. -/
theorem isChain_layout (last : Option Char) (blank : Bool) (cs : List Char) :
    (layout last blank cs).IsChain fun a b => isWhitespace a = false ∨ isWhitespace b = false := by
  induction cs generalizing last blank with
  | nil => exact .nil
  | cons d cs ih =>
      by_cases hd : isWhitespace d
      · rw [layout_cons_whitespace hd]
        exact ih last true
      rw [Bool.not_eq_true] at hd
      have hrest : (d :: layout (some d) false cs).IsChain fun a b =>
          isWhitespace a = false ∨ isWhitespace b = false :=
        isChain_cons_of_left (fun _ => Or.inl hd) (ih (some d) false)
      by_cases hspaced : spaced last blank d
      · rw [layout_cons_spaced hd hspaced]
        exact List.isChain_cons_cons.2 ⟨Or.inr hd, hrest⟩
      · rw [Bool.not_eq_true] at hspaced
        rwa [layout_cons_joined hd hspaced]

theorem not_two_spaces (cs : List Char) : ¬ [' ', ' '] <:+: print cs := by
  rintro ⟨before, after, hsplit⟩
  have hchain := isChain_layout none false cs
  rw [show layout none false cs = print cs from rfl, ← hsplit] at hchain
  have htwo := hchain.left_of_append.right_of_append
  rw [List.isChain_cons_cons] at htwo
  obtain ⟨h | h, -⟩ := htwo <;> cases h

/-- What comes after a text is printed by itself, from the last character before it and the blanks that
the text ends in. -/
theorem exists_layout_init (last : Option Char) (blank : Bool) (init : List Char) :
    ∃ before last' blank', ∀ rest,
      layout last blank (init ++ rest) = before ++ layout last' blank' rest := by
  induction init generalizing last blank with
  | nil => exact ⟨[], last, blank, fun _ => rfl⟩
  | cons d init ih =>
      by_cases hd : isWhitespace d
      · obtain ⟨before, last', blank', hbefore⟩ := ih last true
        exact ⟨before, last', blank', fun rest => (layout_cons_whitespace hd).trans (hbefore rest)⟩
      rw [Bool.not_eq_true] at hd
      obtain ⟨before, last', blank', hbefore⟩ := ih (some d) false
      by_cases hspaced : spaced last blank d
      · refine ⟨' ' :: d :: before, last', blank', fun rest => ?_⟩
        rw [List.cons_append, layout_cons_spaced hd hspaced, hbefore]
        rfl
      · rw [Bool.not_eq_true] at hspaced
        refine ⟨d :: before, last', blank', fun rest => ?_⟩
        rw [List.cons_append, layout_cons_joined hd hspaced, hbefore]
        rfl

/-- What comes before a character that is no blank is printed as it is, whatever comes after. -/
theorem exists_layout_append (last : Option Char) (blank : Bool) (init : List Char)
    (hl : isWhitespace l = false) :
    ∃ before, ∀ rest, layout last blank (init ++ l :: rest) =
      before ++ l :: layout (some l) false rest := by
  obtain ⟨before, last', blank', hbefore⟩ := exists_layout_init last blank init
  by_cases hspaced : spaced last' blank' l
  · refine ⟨before ++ [' '], fun rest => ?_⟩
    rw [hbefore, layout_cons_spaced hl hspaced, List.append_assoc]
    rfl
  · rw [Bool.not_eq_true] at hspaced
    exact ⟨before, fun rest => by rw [hbefore, layout_cons_joined hl hspaced]⟩

theorem print_ne_nil (hmem : c ∈ cs) (hc : isWhitespace c = false) : print cs ≠ [] := by
  obtain ⟨init, rest, rfl⟩ := List.append_of_mem hmem
  obtain ⟨before, hbefore⟩ := exists_layout_append none false init hc
  rw [print, hbefore]
  simp

/-- A text that ends in no blank is printed with the same end. -/
theorem exists_print_concat (init : List Char) (hl : isWhitespace l = false) :
    ∃ before, print (init ++ [l]) = before ++ [l] := by
  obtain ⟨before, hbefore⟩ := exists_layout_append none false init hl
  exact ⟨before, hbefore []⟩

/-! ### Printing one after the other -/

/-- A printed text is printed unchanged after a character that asks for no space. -/
theorem layout_some_layout (hl : l ≠ ',') (blank : Bool) (cs : List Char) :
    layout (some l) false (layout none blank cs) = layout none blank cs := by
  induction cs generalizing blank with
  | nil => rfl
  | cons c cs ih =>
      by_cases hc : isWhitespace c
      · rw [layout_cons_whitespace hc]
        exact ih true
      rw [Bool.not_eq_true] at hc
      have hspaced : spaced (some l) false c = false := by
        rw [spaced, Bool.false_and, Bool.false_and, Bool.or_false]
        exact beq_eq_false_iff_ne.2 hl
      rw [layout_cons_joined hc rfl, layout_cons_joined hc hspaced, layout_layout]

theorem print_append_print (init : List Char) (hl : isWhitespace l = false) (hcomma : l ≠ ',')
    (ds : List Char) :
    print (print (init ++ [l]) ++ print ds) = print (init ++ [l]) ++ print ds := by
  obtain ⟨printed, hprinted⟩ := exists_print_concat init hl
  obtain ⟨before, hbefore⟩ := exists_layout_append none false printed hl
  have hfixed : before ++ [l] = printed ++ [l] := by
    have htwice := print_print (init ++ [l])
    rw [hprinted, print, hbefore] at htwice
    exact htwice
  rw [hprinted, List.append_assoc, List.singleton_append, print, hbefore, print,
    layout_some_layout hcomma, List.append_cancel_right hfixed]

/-- After a comma the second text would be printed with a space before it. -/
example : print (print "a,".toList ++ print "[]".toList) ≠ print "a,".toList ++ print "[]".toList := by
  decide

end EndpointAtlas.TypeText
