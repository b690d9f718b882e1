import EndpointAtlas.Proofs.TypeText

/-!
# The normal form of a type expression

Printing changes nothing but white space. What is printed is in a normal form, and every text in that
form is printed as it is. White space that stands beside a mark, or in the place of other white space,
makes no difference to what is printed.
-/

namespace EndpointAtlas.TypeText

open Text

variable {last : Option Char} {blank : Bool} {c d l : Char} {s cs w before after : List Char}

/-- White space is one space each time, between two characters that are no white space: after a comma,
which has a space after it unless it comes last, or else neither after an opening mark nor before any
mark. -/
structure IsNormal (s : List Char) : Prop where
  spaces : ∀ c ∈ s, isWhitespace c → c = ' '
  head : s.head? ≠ some ' '
  last : s.getLast? ≠ some ' '
  single : ¬ [' ', ' '] <:+: s
  opening : ∀ c ∈ ['<', '[', '.'], ¬ [c, ' '] <:+: s
  mark : ∀ c ∈ ['<', '>', '[', ']', '.', ','], ∀ before after,
    s = before ++ ' ' :: c :: after → before.getLast? = some ','
  comma : ∀ before c after, s = before ++ ',' :: c :: after →
    c = ' ' ∧ ∃ d rest, after = d :: rest ∧ isWhitespace d = false

theorem isMark_iff : isMark c ↔ c ∈ ['<', '>', '[', ']', '.', ','] := by
  simp [isMark, or_assoc]

theorem isOpening_iff : isOpening c ↔ c ∈ ['<', '[', '.'] := by
  simp [isOpening, or_assoc]

theorem isMark_of_opening (h : isOpening c ∨ c = ',') : isMark c := by
  rw [isOpening_iff] at h
  rw [isMark_iff]
  simp only [List.mem_cons, List.not_mem_nil, or_false] at h ⊢
  tauto

theorem isWhitespace_of_isMark (h : isMark c) : isWhitespace c = false := by
  rw [isMark_iff] at h
  simp only [List.mem_cons, List.not_mem_nil, or_false] at h
  obtain rfl | rfl | rfl | rfl | rfl | rfl := h <;> decide

/-! ### What is printed -/

theorem compact_layout (last : Option Char) (blank : Bool) (cs : List Char) :
    compact (layout last blank cs) = compact cs := by
  unfold compact
  fun_induction layout last blank cs with
  | case1 => rfl
  | case2 _ _ c cs hc ih => rw [ih, List.filter_cons_of_neg (by simp [hc])]
  | case3 _ _ c cs hc _ ih =>
      rw [List.filter_cons_of_neg (by simp [isWhitespace_space]),
        List.filter_cons_of_pos (by simp [hc]), List.filter_cons_of_pos (by simp [hc]), ih]
  | case4 _ _ c cs hc _ ih =>
      rw [List.filter_cons_of_pos (by simp [hc]), List.filter_cons_of_pos (by simp [hc]), ih]

/-- A space is printed between two characters, where one is due if there is a blank. -/
theorem spaced_of_layout_eq (h : layout last blank cs = before ++ ' ' :: after) :
    ∃ init l c rest, last.toList ++ before = init ++ [l] ∧ after = c :: rest ∧
      isWhitespace c = false ∧ spaced (some l) true c := by
  fun_induction layout last blank cs generalizing before with
  | case1 => simp at h
  | case2 _ _ c cs hc ih => exact ih h
  | case3 last _ c cs hc hspaced ih =>
      rw [Bool.not_eq_true] at hc
      match before with
      | [] =>
          obtain ⟨-, rfl⟩ := List.cons.inj h
          cases last with
          | none => cases hspaced
          | some l => exact ⟨[], l, c, _, rfl, rfl, hc, spaced_true hspaced⟩
      | [b] =>
          obtain ⟨rfl, -⟩ := List.cons.inj (List.cons.inj h).2
          rw [isWhitespace_space] at hc
          cases hc
      | b :: d :: before =>
          obtain ⟨rfl, hprinted⟩ := List.cons.inj h
          obtain ⟨rfl, hrest⟩ := List.cons.inj hprinted
          obtain ⟨init, l, e, rest, hinit, hafter⟩ := ih hrest
          exact ⟨last.toList ++ ' ' :: init, l, e, rest, by simp [← hinit], hafter⟩
  | case4 last _ c cs hc hspaced ih =>
      cases before with
      | nil =>
          obtain ⟨rfl, -⟩ := List.cons.inj h
          exact absurd isWhitespace_space hc
      | cons b before =>
          obtain ⟨rfl, hrest⟩ := List.cons.inj h
          obtain ⟨init, l, e, rest, hinit, hafter⟩ := ih hrest
          exact ⟨last.toList ++ init, l, e, rest, by simp [← hinit], hafter⟩

theorem eq_space_of_layout_comma (h : layout (some ',') blank cs = c :: after) : c = ' ' := by
  generalize hlast : some ',' = last at h
  fun_induction layout last blank cs with
  | case1 => cases h
  | case2 _ _ _ _ _ ih => exact ih hlast h
  | case3 => exact (List.cons.inj h).1.symm
  | case4 _ _ _ _ _ hspaced =>
      subst hlast
      exact absurd rfl hspaced

theorem eq_space_of_comma (h : layout last blank cs = before ++ ',' :: c :: after) : c = ' ' := by
  -- What follows a character is printed after it.
  have hlater {d : Char} {cs before : List Char}
      (ih : ∀ {before}, layout (some d) false cs = before ++ ',' :: c :: after → c = ' ')
      (h : d :: layout (some d) false cs = before ++ ',' :: c :: after) : c = ' ' := by
    cases before with
    | nil =>
        obtain ⟨rfl, hrest⟩ := List.cons.inj h
        exact eq_space_of_layout_comma hrest
    | cons b before => exact ih (List.cons.inj h).2
  fun_induction layout last blank cs generalizing before with
  | case1 => simp at h
  | case2 _ _ _ _ _ ih => exact ih h
  | case3 _ _ _ _ _ _ ih =>
      cases before with
      | nil => cases (List.cons.inj h).1
      | cons b before => exact hlater ih (List.cons.inj h).2
  | case4 _ _ _ _ _ _ ih => exact hlater ih h

theorem isNormal_print (s : List Char) : IsNormal (print s) := by
  have hspace (before after : List Char) (h : print s = before ++ ' ' :: after) :
      ∃ init l c rest, before = init ++ [l] ∧ after = c :: rest ∧
        isWhitespace c = false ∧ spaced (some l) true c := spaced_of_layout_eq h
  refine ⟨fun c hc => eq_space_of_mem_layout hc, ?_, ?_, not_two_spaces s, ?_, ?_, ?_⟩
  · intro hhead
    obtain ⟨rest, hrest⟩ := List.head?_eq_some_iff.1 hhead
    obtain ⟨init, l, c, after, hinit, -⟩ := hspace [] rest hrest
    simp at hinit
  · intro hlast
    obtain ⟨before, hbefore⟩ := List.getLast?_eq_some_iff.1 hlast
    obtain ⟨init, l, c, after, -, hafter, -⟩ := hspace before [] hbefore
    cases hafter
  · rintro c hc ⟨before, after, hsplit⟩
    obtain ⟨init, l, d, rest, hinit, -, -, hspaced⟩ :=
      hspace (before ++ [c]) after (by simp [← hsplit])
    obtain ⟨-, rfl⟩ := List.append_singleton_inj.1 hinit
    have hcomma : c ≠ ',' := by
      rintro rfl
      simp at hc
    simp [spaced, isOpening_iff.2 hc, hcomma] at hspaced
  · intro c hc before after hsplit
    obtain ⟨init, l, d, rest, rfl, hafter, -, hspaced⟩ := hspace _ _ hsplit
    obtain ⟨rfl, -⟩ := List.cons.inj hafter
    rw [List.getLast?_concat]
    simpa [spaced, isMark_iff.2 hc] using hspaced
  · intro before c after hsplit
    obtain rfl := eq_space_of_comma hsplit
    obtain ⟨-, -, d, rest, -, hafter, hd, -⟩ :=
      hspace (before ++ [',']) after (by simp [hsplit])
    exact ⟨rfl, d, rest, hafter, hd⟩

/-! ### Normal texts are printed as they are -/

/-- What follows a part of a normal text is printed as it is. -/
theorem IsNormal.layout_eq {before cs : List Char} (h : IsNormal (before ++ cs)) :
    layout before.getLast? false cs = cs := by
  match cs with
  | [] => rfl
  | c :: rest =>
      by_cases hc : isWhitespace c
      · -- A space in a normal text has a character before it and one after it.
        obtain rfl : c = ' ' := h.spaces c (by simp) hc
        cases rest with
        | nil => exact absurd List.getLast?_concat h.last
        | cons d rest =>
        obtain rfl | ⟨init, l, rfl⟩ := List.eq_nil_or_concat' before
        · exact absurd rfl h.head
        have hd : isWhitespace d = false := by
          rw [← Bool.not_eq_true]
          intro hd
          obtain rfl := h.spaces d (by simp) hd
          exact h.single ⟨init ++ [l], rest, by simp⟩
        have hspaced : spaced (some l) true d := by
          by_cases hmark : isMark d
          · have hcomma := h.mark d (isMark_iff.1 hmark) (init ++ [l]) rest rfl
            rw [List.getLast?_concat] at hcomma
            obtain rfl := Option.some.inj hcomma
            rfl
          · have hopening : ¬ isOpening l := fun hl =>
              h.opening l (isOpening_iff.1 hl) ⟨init, d :: rest, by simp⟩
            simp [spaced, hmark, hopening]
        have hrest : layout (some d) false rest = rest := by
          have hnormal : IsNormal ((init ++ [l] ++ [' ', d]) ++ rest) := by simpa using h
          simpa using hnormal.layout_eq
        rw [List.getLast?_concat, layout_cons_whitespace isWhitespace_space,
          layout_cons_spaced hd hspaced, hrest]
      · rw [Bool.not_eq_true] at hc
        have hspaced : spaced before.getLast? false c = false := by
          rw [← Bool.not_eq_true]
          intro hspaced
          obtain rfl | ⟨init, l, rfl⟩ := List.eq_nil_or_concat' before
          · cases hspaced
          · rw [List.getLast?_concat] at hspaced
            obtain rfl : l = ',' := by simpa [spaced] using hspaced
            obtain ⟨rfl, -⟩ := h.comma init c rest (by simp)
            rw [isWhitespace_space] at hc
            cases hc
        have hrest : layout (some c) false rest = rest := by
          have hnormal : IsNormal ((before ++ [c]) ++ rest) := by simpa using h
          simpa using hnormal.layout_eq
        rw [layout_cons_joined hc hspaced, hrest]
termination_by cs.length

theorem print_eq_self_iff : print s = s ↔ IsNormal s := by
  constructor
  · intro h
    exact h ▸ isNormal_print s
  · intro h
    have hnormal : IsNormal ([] ++ s) := h
    exact hnormal.layout_eq

/-! ### White space that makes no difference -/

theorem layout_blanks (hw : ∀ c ∈ w, isWhitespace c) :
    layout last blank (w ++ cs) = layout last (blank || !w.isEmpty) cs := by
  induction w generalizing blank with
  | nil => simp
  | cons c w ih =>
      rw [List.forall_mem_cons] at hw
      rw [List.cons_append, layout_cons_whitespace hw.1, ih hw.2]
      simp

/-- Before a mark blanks do not count. -/
theorem spaced_mark (hc : isMark c) (blank : Bool) : spaced last blank c = spaced last false c := by
  cases last <;> simp [spaced, hc]

/-- After an opening mark or a comma blanks do not count. -/
theorem spaced_opening (hl : isOpening l ∨ l = ',') (blank : Bool) (c : Char) :
    spaced (some l) blank c = spaced (some l) false c := by
  obtain hl | rfl := hl
  · simp [spaced, hl]
  · rfl

theorem layout_mark (hc : isMark c) (blank : Bool) :
    layout last blank (c :: cs) = layout last false (c :: cs) := by
  rw [layout, layout, spaced_mark hc, isWhitespace_of_isMark hc]

theorem layout_opening (hl : isOpening l ∨ l = ',') (blank : Bool) :
    layout (some l) blank cs = layout (some l) false cs := by
  cases cs with
  | nil => rfl
  | cons c cs => rw [layout, layout, spaced_opening hl]

theorem print_blanks_mark (before after : List Char) (hw : ∀ c ∈ w, isWhitespace c)
    (hc : isMark c) : print (before ++ w ++ c :: after) = print (before ++ c :: after) := by
  obtain ⟨printed, last, blank, hprinted⟩ := exists_layout_init none false before
  rw [print, print, List.append_assoc, hprinted, hprinted, layout_blanks hw, layout_mark hc,
    layout_mark hc blank]

theorem print_opening_blanks (before after : List Char) (hw : ∀ c ∈ w, isWhitespace c)
    (hl : isOpening l ∨ l = ',') :
    print (before ++ l :: (w ++ after)) = print (before ++ l :: after) := by
  obtain ⟨printed, hprinted⟩ :=
    exists_layout_append none false before (isWhitespace_of_isMark (isMark_of_opening hl))
  rw [print, print, hprinted, hprinted, layout_blanks hw, layout_opening hl]

theorem print_blanks_blanks {v : List Char} (before after : List Char)
    (hv : ∀ c ∈ v, isWhitespace c) (hw : ∀ c ∈ w, isWhitespace c) (hvne : v ≠ []) (hwne : w ≠ []) :
    print (before ++ v ++ after) = print (before ++ w ++ after) := by
  obtain ⟨printed, last, blank, hprinted⟩ := exists_layout_init none false before
  rw [← List.isEmpty_eq_false_iff] at hvne hwne
  rw [print, print, List.append_assoc, List.append_assoc, hprinted, hprinted, layout_blanks hv,
    layout_blanks hw, hvne, hwne]

/-- Printing keeps all characters but white space and gives a text in normal form, which is printed as
it is. White space before a mark or after an opening one or a comma may come and go, and any other
white space may take the place of white space. -/
theorem print_normal_form (s : List Char) :
    compact (print s) = compact s ∧ print (print s) = print s ∧ IsNormal (print s) ∧
    (IsNormal s → print s = s) ∧
    (∀ before w c after, (∀ d ∈ w, isWhitespace d) → c ∈ ['<', '>', '[', ']', '.', ','] →
      print (before ++ w ++ c :: after) = print (before ++ c :: after)) ∧
    (∀ before c w after, (∀ d ∈ w, isWhitespace d) → c ∈ ['<', '[', '.', ','] →
      print (before ++ c :: (w ++ after)) = print (before ++ c :: after)) ∧
    ∀ before v w after, (∀ d ∈ v, isWhitespace d) → (∀ d ∈ w, isWhitespace d) → v ≠ [] → w ≠ [] →
      print (before ++ v ++ after) = print (before ++ w ++ after) := by
  refine ⟨compact_layout none false s, print_print s, isNormal_print s, print_eq_self_iff.2,
    ?_, ?_, ?_⟩
  · intro before w c after hw hc
    exact print_blanks_mark before after hw (isMark_iff.2 hc)
  · intro before c w after hw hc
    refine print_opening_blanks before after hw ?_
    rw [isOpening_iff]
    simpa [or_assoc] using hc
  · intro before v w after hv hw hvne hwne
    exact print_blanks_blanks before after hv hw hvne hwne

example : print "Map < K,java . util.List [ ]>".toList = "Map<K, java.util.List[]>".toList := by
  decide

end EndpointAtlas.TypeText
