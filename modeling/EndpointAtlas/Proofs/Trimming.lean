import EndpointAtlas.Text.Whitespace
import Mathlib.Data.List.DropRight

/-!
# Trimmed lists

Trimming takes away at both ends as much as it can, so neither end of what it leaves could be taken away
as well. Whatever has such ends is left when it stands between things that are taken away.
-/

namespace EndpointAtlas.Text

variable {α : Type} {p : α → Bool} {x : α} {xs before after : List α}

theorem mem_of_mem_trimEnds (hmem : x ∈ trimEnds p xs) : x ∈ xs := by
  rw [trimEnds, List.mem_reverse] at hmem
  have hkept := List.dropWhile_subset p hmem
  rw [List.mem_reverse] at hkept
  exact List.dropWhile_subset p hkept

theorem trimEnds_ne_cons (hx : p x) : trimEnds p xs ≠ x :: after := by
  intro htrim
  have hprefix : trimEnds p xs <+: xs.dropWhile p := List.rdropWhile_prefix p _
  rw [htrim] at hprefix
  obtain ⟨rest, hrest⟩ := hprefix
  have hne : xs.dropWhile p ≠ [] := by simp [← hrest]
  have hhead : (xs.dropWhile p).head hne = x := by simp [← hrest]
  exact absurd (hhead ▸ hx) (by simp [List.head_dropWhile_not p hne])

theorem trimEnds_ne_concat (hx : p x) : trimEnds p xs ≠ before ++ [x] := by
  intro htrim
  have hne : trimEnds p xs ≠ [] := by
    rw [htrim]
    simp
  have hlast := List.rdropWhile_last_not p (xs.dropWhile p) hne
  apply hlast
  have hgetLast : (trimEnds p xs).getLast hne = x := by
    simp only [htrim, List.getLast_concat]
  exact hgetLast ▸ hx

theorem head?_trimEnds_ne (hx : p x) : (trimEnds p xs).head? ≠ some x := by
  intro hhead
  obtain ⟨after, hafter⟩ := List.head?_eq_some_iff.1 hhead
  exact trimEnds_ne_cons hx hafter

theorem getLast?_trimEnds_ne (hx : p x) : (trimEnds p xs).getLast? ≠ some x := by
  intro hlast
  obtain ⟨before, hbefore⟩ := List.getLast?_eq_some_iff.1 hlast
  exact trimEnds_ne_concat hx hbefore

/-- Before and after what is left there is only what is taken away. -/
theorem exists_append_trimEnds (p : α → Bool) (xs : List α) : ∃ before after,
    xs = before ++ trimEnds p xs ++ after ∧ (∀ x ∈ before, p x) ∧ ∀ x ∈ after, p x := by
  refine ⟨xs.takeWhile p, (xs.dropWhile p).rtakeWhile p, ?_, fun x hx => List.mem_takeWhile_imp hx,
    fun x hx => List.mem_rtakeWhile_imp hx⟩
  calc xs = xs.takeWhile p ++ xs.dropWhile p := List.takeWhile_append_dropWhile.symm
    _ = xs.takeWhile p ++ ((xs.dropWhile p).rdropWhile p ++ (xs.dropWhile p).rtakeWhile p) := by
        rw [List.rdropWhile_append_rtakeWhile]
    _ = _ := by
        rw [← List.append_assoc]
        rfl

theorem dropWhile_of_head?_ne (hhead : ∀ x, p x → xs.head? ≠ some x) : xs.dropWhile p = xs := by
  cases xs with
  | nil => rfl
  | cons y ys => exact List.dropWhile_cons_of_neg fun hy => hhead y hy rfl

/-- What could not lose anything at its ends is left. -/
theorem trimEnds_append_append (hbefore : ∀ x ∈ before, p x) (hafter : ∀ x ∈ after, p x)
    (hhead : ∀ x, p x → xs.head? ≠ some x) (hlast : ∀ x, p x → xs.getLast? ≠ some x) :
    trimEnds p (before ++ xs ++ after) = xs := by
  rw [trimEnds, List.append_assoc, List.dropWhile_append_of_pos hbefore]
  by_cases hxs : xs = []
  · subst hxs
    rw [List.nil_append, List.dropWhile_eq_nil_iff.2 hafter]
    rfl
  · have hfirst : (xs ++ after).dropWhile p = xs ++ after := by
      refine dropWhile_of_head?_ne fun x hx => ?_
      rw [List.head?_append_of_ne_nil _ hxs]
      exact hhead x hx
    have hback : xs.reverse.dropWhile p = xs.reverse := by
      refine dropWhile_of_head?_ne fun x hx => ?_
      rw [List.head?_reverse]
      exact hlast x hx
    rw [hfirst, List.reverse_append,
      List.dropWhile_append_of_pos fun x hx => hafter x (List.mem_reverse.1 hx), hback,
      List.reverse_reverse]

end EndpointAtlas.Text
