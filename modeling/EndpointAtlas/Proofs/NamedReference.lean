import EndpointAtlas.Proofs.Erasure
import EndpointAtlas.Proofs.FirmSymbols

/-!
# References by names

A reference to a type by its name and the names before it. A text is read as this reference if nothing
but the names and the dots between them is left of it.
-/

namespace EndpointAtlas.TypeReference

open Text

/-- The reference to a type by its name and the names before it. -/
def ofNames (outer : List (List Char)) (name : List Char) : TypeReference :=
  ⟨if outer = [] then none else some (.ofList (['.'].intercalate outer)), .ofList name⟩

variable {cs name first : List Char} {outer names : List (List Char)} {text : String} {c : Char}

theorem intercalate_cons (first : List Char) (names : List (List Char)) :
    ['.'].intercalate (first :: names) = first ++ names.flatMap ('.' :: ·) := by
  induction names generalizing first with
  | nil => rw [List.intercalate_singleton, List.flatMap_nil, List.append_nil]
  | cons second names ih =>
      rw [List.intercalate_cons_cons, ih, List.flatMap_cons, List.append_assoc]
      rfl

theorem intercalate_concat (h : outer ≠ []) :
    ['.'].intercalate (outer ++ [name]) = ['.'].intercalate outer ++ '.' :: name := by
  obtain ⟨first, others, rfl⟩ := List.exists_cons_of_ne_nil h
  rw [List.cons_append, intercalate_cons, intercalate_cons, List.flatMap_append, List.append_assoc,
    List.flatMap_singleton]

theorem mem_intercalate (h : c ∈ ['.'].intercalate names) : c = '.' ∨ ∃ name ∈ names, c ∈ name := by
  cases names with
  | nil => cases h
  | cons first names =>
      rw [intercalate_cons, List.mem_append, List.mem_flatMap] at h
      obtain h | ⟨name, hname, h⟩ := h
      · exact Or.inr ⟨first, List.mem_cons_self, h⟩
      · exact (List.mem_cons.1 h).imp_right fun h => ⟨name, List.mem_cons_of_mem _ hname, h⟩

/-- A name as it is spelled. -/
structure IsSpelled (name : List Char) : Prop where
  nonempty : name ≠ []
  parts : ∀ c ∈ name, isIdentifierPart c

theorem IsSpelled.notMem_dot (h : IsSpelled name) : '.' ∉ name :=
  fun hdot => (ne_of_isIdentifierPart (h.parts _ hdot)).1 rfl

theorem head?_intercalate_ne (h : ∀ n ∈ names, IsSpelled n) :
    (['.'].intercalate names).head? ≠ some '.' := by
  cases names with
  | nil => exact nofun
  | cons first names =>
      have hfirst := h first List.mem_cons_self
      rw [intercalate_cons, List.head?_append_of_ne_nil _ hfirst.nonempty]
      exact fun hdot => hfirst.notMem_dot (List.mem_of_head? hdot)

theorem getLast?_intercalate_ne (h : IsSpelled name) :
    (['.'].intercalate (outer ++ [name])).getLast? ≠ some '.' := by
  have hlast : (['.'].intercalate (outer ++ [name])).getLast? = name.getLast? := by
    obtain rfl | hne := eq_or_ne outer []
    · rw [List.nil_append, List.intercalate_singleton]
    · rw [intercalate_concat hne, List.append_cons, List.getLast?_append_of_ne_nil _ h.nonempty]
  rw [hlast]
  exact fun hdot => h.notMem_dot (List.mem_of_getLast? hdot)

theorem toList_qualifiedKey_ofNames (h : ∀ n ∈ outer, IsSpelled n) :
    (ofNames outer name).qualifiedKey.toList = ['.'].intercalate (outer ++ [name]) := by
  cases outer with
  | nil => exact String.toList_ofList.trans List.intercalate_singleton.symm
  | cons first outer =>
      have hqualifier : ((String.ofList (['.'].intercalate (first :: outer))).isEmpty) = false := by
        rw [← Bool.not_eq_true, String.isEmpty_iff, String.ofList_eq_empty_iff, intercalate_cons]
        exact List.append_ne_nil_of_left_ne_nil (h first List.mem_cons_self).nonempty _
      rw [intercalate_concat (List.cons_ne_nil _ _), qualifiedKey, ofNames, if_neg (List.cons_ne_nil _ _)]
      simp only [hqualifier, Bool.false_eq_true, if_false, toList_qualified, String.toList_ofList]

/-- A text is read as a reference by names if these are all that is left of it. -/
theorem parse_eq_ofNames_iff (h : ∀ n ∈ outer ++ [name], IsSpelled n) :
    parse text = some (ofNames outer name) ↔
      trimEnds (· == '.') (erase 0 text.toList) = ['.'].intercalate (outer ++ [name]) := by
  rw [List.forall_mem_append, List.forall_mem_singleton] at h
  constructor
  · intro hparse
    rw [← toList_qualifiedKey_of_parse hparse, toList_qualifiedKey_ofNames h.1]
  · intro htext
    have hdot := h.2.notMem_dot
    rw [parse, htext]
    obtain rfl | houter := eq_or_ne outer []
    · rw [List.nil_append, List.intercalate_singleton]
      obtain ⟨c, cs, rfl⟩ := List.exists_cons_of_ne_nil h.2.nonempty
      dsimp only
      rw [splitLastDot_of_notMem hdot]
      rfl
    · rw [intercalate_concat houter]
      split
      · next hnil => simp at hnil
      · rw [splitLastDot_append _ hdot, ofNames, if_neg houter]

theorem IsSpelled.plain (h : IsSpelled name) : ∀ c ∈ name, c ≠ '<' ∧ c ≠ '>' ∧ isWhitespace c = false := by
  intro c hc
  have hpart := h.parts c hc
  refine ⟨?_, ?_, isWhitespace_of_isIdentifierPart hpart⟩
  · rintro rfl
    exact absurd hpart (by decide)
  · rintro rfl
    exact absurd hpart (by decide)

/-- What begins with a name is read as some reference. -/
theorem IsSpelled.exists_parse (h : IsSpelled name) (htext : erase 0 text.toList = name ++ cs) :
    ∃ r, parse text = some r := by
  rw [← Option.isSome_iff_exists, ← Option.ne_none_iff_isSome, Ne, parse_eq_none_iff, htext]
  intro hdots
  obtain ⟨c, rest, hname⟩ := List.exists_cons_of_ne_nil h.nonempty
  have hc : c ∈ name := hname ▸ List.mem_cons_self
  exact h.notMem_dot (hdots c (List.mem_append_left _ hc) ▸ hc)

/-- Where only names and dots are left there was nothing else beside dots. -/
theorem mem_of_trimEnds_eq (h : ∀ n ∈ names, IsSpelled n)
    (htext : trimEnds (· == '.') cs = ['.'].intercalate names) (hc : c ∈ cs) :
    c = '.' ∨ isIdentifierPart c := by
  by_cases hdot : c = '.'
  · exact Or.inl hdot
  · have hleft := mem_trimEnds hc hdot
    rw [htext] at hleft
    exact (mem_intercalate hleft).imp_right fun ⟨name, hname, hc⟩ => (h name hname).parts c hc

end EndpointAtlas.TypeReference
