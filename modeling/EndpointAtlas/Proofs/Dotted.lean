import EndpointAtlas.Text.Dotted

/-!
# Cutting a name at its last dot

What stands after the last dot of a name has no dot, and a text without dots put after a dot is what
stands after the last one.
-/

namespace EndpointAtlas.Text

theorem toList_qualified (q name : String) :
    (q ++ "." ++ name).toList = q.toList ++ '.' :: name.toList := by
  rw [String.toList_append, String.toList_append, List.append_assoc]
  rfl

theorem notMem_or_cut (cs : List Char) :
    '.' ∉ cs ∨ ∃ stem ext, cs = stem ++ '.' :: ext ∧ '.' ∉ ext := by
  induction cs with
  | nil => simp
  | cons c cs ih =>
      obtain hcs | ⟨stem, ext, rfl, hext⟩ := ih
      · by_cases hc : c = '.'
        · exact Or.inr ⟨[], cs, by rw [hc, List.nil_append], hcs⟩
        · exact Or.inl (by simp [hcs, Ne.symm hc])
      · exact Or.inr ⟨c :: stem, ext, rfl, hext⟩

theorem splitLastDot_of_notMem {cs : List Char} (h : '.' ∉ cs) : splitLastDot cs = none := by
  induction cs with
  | nil => rfl
  | cons c cs ih =>
      rw [List.mem_cons, not_or] at h
      obtain ⟨hc, hcs⟩ := h
      rw [splitLastDot, ih hcs]
      exact if_neg (Ne.symm hc)

theorem splitLastDot_append (stem : List Char) {ext : List Char} (h : '.' ∉ ext) :
    splitLastDot (stem ++ '.' :: ext) = some (stem, ext) := by
  induction stem with
  | nil => rw [List.nil_append, splitLastDot, splitLastDot_of_notMem h, if_pos rfl]
  | cons c stem ih => rw [List.cons_append, splitLastDot, ih]

theorem splitLastDot_eq_some_iff {cs stem ext : List Char} :
    splitLastDot cs = some (stem, ext) ↔ cs = stem ++ '.' :: ext ∧ '.' ∉ ext := by
  constructor
  · intro h
    obtain hcs | ⟨stem', ext', rfl, hext⟩ := notMem_or_cut cs
    · rw [splitLastDot_of_notMem hcs] at h
      cases h
    · rw [splitLastDot_append _ hext] at h
      cases h
      exact ⟨rfl, hext⟩
  · rintro ⟨rfl, hext⟩
    exact splitLastDot_append stem hext

theorem lastSegment_of_notMem {cs : List Char} (h : '.' ∉ cs) : lastSegment cs = cs := by
  unfold lastSegment
  rw [splitLastDot_of_notMem h]

/-- A qualifier, whatever dots it has, leaves the last segment of a name as it is. -/
theorem lastSegment_append (q cs : List Char) : lastSegment (q ++ '.' :: cs) = lastSegment cs := by
  unfold lastSegment
  obtain hcs | ⟨stem, ext, rfl, hext⟩ := notMem_or_cut cs
  · rw [splitLastDot_append q hcs, splitLastDot_of_notMem hcs]
  · have hwhole : q ++ '.' :: (stem ++ '.' :: ext) = (q ++ '.' :: stem) ++ '.' :: ext := by simp
    rw [hwhole, splitLastDot_append _ hext, splitLastDot_append _ hext]

theorem lastSegment_eq_iff {cs simple : List Char} :
    lastSegment cs = simple ↔ '.' ∉ simple ∧ (cs = simple ∨ ∃ q, cs = q ++ '.' :: simple) := by
  constructor
  · rintro rfl
    obtain hcs | ⟨stem, ext, rfl, hext⟩ := notMem_or_cut cs
    · rw [lastSegment_of_notMem hcs]
      exact ⟨hcs, Or.inl rfl⟩
    · rw [lastSegment_append, lastSegment_of_notMem hext]
      exact ⟨hext, Or.inr ⟨stem, rfl⟩⟩
  · rintro ⟨hsimple, rfl | ⟨q, rfl⟩⟩
    · exact lastSegment_of_notMem hsimple
    · rw [lastSegment_append, lastSegment_of_notMem hsimple]

end EndpointAtlas.Text
