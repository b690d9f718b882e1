import EndpointAtlas.Declaration.TypeReference
import EndpointAtlas.Proofs.Dotted
import EndpointAtlas.Proofs.Trimming

/-!
# What a type reference is made of

Whatever text a reference is read from, its name is a piece without dots, and the dots at both ends are
gone, so that neither the name nor the qualifier before it is empty.
-/

namespace EndpointAtlas

open Text

namespace TypeReference

/-- A simple name and, before it, a qualifier or none. -/
structure WellFormed (r : TypeReference) : Prop where
  name_nonempty : r.name ≠ ""
  name_plain : ∀ c ∈ r.name.toList, c ≠ '.' ∧ c ≠ '<' ∧ c ≠ '>' ∧ isWhitespace c = false
  qualifier_nonempty : r.qualifier ≠ some ""

variable {c : Char} {cs before after : List Char} {depth : Nat} {text : String} {r : TypeReference}

theorem plain_of_mem_erase (hmem : c ∈ erase depth cs) :
    c ≠ '<' ∧ c ≠ '>' ∧ isWhitespace c = false := by
  induction cs generalizing depth with
  | nil => cases hmem
  | cons d cs ih =>
      rw [erase] at hmem
      split at hmem
      · exact ih hmem
      next hopening =>
      split at hmem
      · exact ih hmem
      next hclosing =>
      split at hmem
      · exact ih hmem
      next hkept =>
      rw [List.mem_cons] at hmem
      obtain rfl | hmem := hmem
      · rw [Bool.or_eq_true, not_or, Bool.not_eq_true] at hkept
        exact ⟨by simpa using hopening, by simpa using hclosing, hkept.1⟩
      · exact ih hmem

/-! ### Reading a reference -/

/-- A reference is read from the text that is left: all of it is the name, or its last dot parts the
qualifier from the name. -/
theorem cut_of_parse (h : parse text = some r) :
    let dotted := trimEnds (· == '.') (erase 0 text.toList)
    (dotted ≠ [] ∧ '.' ∉ dotted ∧ r = ⟨none, .ofList dotted⟩) ∨
      ∃ qualifier name, dotted = qualifier ++ '.' :: name ∧ '.' ∉ name ∧
        r = ⟨some (.ofList qualifier), .ofList name⟩ := by
  intro dotted
  rw [parse] at h
  split at h
  · cases h
  next hne =>
  split at h
  · next qualifier name hcut =>
    obtain ⟨hdotted, hname⟩ := splitLastDot_eq_some_iff.1 hcut
    exact Or.inr ⟨qualifier, name, hdotted, hname, (Option.some.inj h).symm⟩
  · next hcut =>
    refine Or.inl ⟨hne, ?_, (Option.some.inj h).symm⟩
    obtain hnone | ⟨stem, ext, hdotted, hext⟩ := notMem_or_cut dotted
    · exact hnone
    · rw [splitLastDot_eq_some_iff.2 ⟨hdotted, hext⟩] at hcut
      cases hcut

theorem wellFormed_of_parse (h : parse text = some r) : r.WellFormed := by
  have hplain {c : Char} (hmem : c ∈ trimEnds (· == '.') (erase 0 text.toList)) :
      c ≠ '<' ∧ c ≠ '>' ∧ isWhitespace c = false := plain_of_mem_erase (mem_of_mem_trimEnds hmem)
  obtain ⟨hne, hdots, rfl⟩ | ⟨qualifier, name, hcut, hdots, rfl⟩ := cut_of_parse h
  · refine ⟨?_, ?_, by simp⟩
    · rwa [Ne, String.ofList_eq_empty_iff]
    · intro c hc
      rw [String.toList_ofList] at hc
      refine ⟨?_, hplain hc⟩
      rintro rfl
      exact hdots hc
  · refine ⟨?_, ?_, ?_⟩
    · rw [Ne, String.ofList_eq_empty_iff]
      rintro rfl
      exact trimEnds_ne_concat (x := '.') rfl hcut
    · intro c hc
      rw [String.toList_ofList] at hc
      refine ⟨?_, hplain ?_⟩
      · rintro rfl
        exact hdots hc
      · rw [hcut]
        exact List.mem_append_right _ (List.mem_cons_of_mem _ hc)
    · rw [Ne, Option.some.injEq, String.ofList_eq_empty_iff]
      rintro rfl
      exact trimEnds_ne_cons (x := '.') rfl hcut

end TypeReference

end EndpointAtlas
