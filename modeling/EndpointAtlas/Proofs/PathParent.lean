import EndpointAtlas.Files.Tree
import EndpointAtlas.Proofs.PathComponents
import Mathlib.Data.List.Basic

/-!
# The path above a path

Below the path above it, a path has one more name. Between the two and after the name there is nothing
but `.`, which leads nowhere.
-/

namespace EndpointAtlas

namespace Path

variable {p : Nat → List Char → Bool} {n : Nat} {xs ys : List (List Char)} {x : List Char}

/-! ### Up to the last one -/

theorem not_of_upToLast_cons (h : upToLast p n (x :: xs) = []) : p n x = false := by
  rw [upToLast] at h
  split at h
  · split at h
    · cases h
    · next hx => exact Bool.eq_false_iff.2 hx
  · cases h

theorem exists_eq_upToLast_append (p : Nat → List Char → Bool) (n : Nat) (xs : List (List Char)) :
    ∃ rest, xs = upToLast p n xs ++ rest ∧ ∀ x ∈ rest, ∃ index, p index x = false := by
  induction xs generalizing n with
  | nil => exact ⟨[], rfl, by simp⟩
  | cons y xs ih =>
      obtain ⟨rest, hxs, hrest⟩ := ih (n + 1)
      rw [upToLast]
      split
      · next hnone =>
        rw [hnone, List.nil_append] at hxs
        subst hxs
        by_cases hy : p n y
        · exact ⟨xs, by rw [if_pos hy, List.singleton_append], hrest⟩
        · refine ⟨y :: xs, by rw [if_neg hy, List.nil_append], ?_⟩
          exact List.forall_mem_cons.2 ⟨⟨n, Bool.eq_false_iff.2 hy⟩, hrest⟩
      · exact ⟨rest, by rw [List.cons_append, ← hxs], hrest⟩

theorem last_of_upToLast (h : upToLast p n xs = ys ++ [x]) : p (n + ys.length) x := by
  induction xs generalizing n ys with
  | nil => simp [upToLast] at h
  | cons y xs ih =>
      rw [upToLast] at h
      split at h
      · split at h
        · next hy =>
          obtain ⟨rfl, heq⟩ := List.append_eq_singleton_iff.1 h.symm |>.resolve_right (by simp)
          cases heq
          exact hy
        · simp at h
      · next hsome =>
        cases ys with
        | nil =>
            rw [List.nil_append, List.cons.injEq] at h
            exact absurd h.2 hsome
        | cons z ys =>
            rw [List.cons_append, List.cons.injEq] at h
            have hx := ih h.2
            rwa [Nat.add_right_comm, Nat.add_assoc, ← List.length_cons] at hx

/-! ### Pieces -/

theorem idle_of_not_isStep {index : Nat} (h : isStep index x = false) : x = [] ∨ x = ['.'] := by
  by_cases hempty : x = []
  · exact Or.inl hempty
  · by_cases hdot : x = ['.']
    · exact Or.inr hdot
    · simp [isStep, hempty, hdot] at h

theorem ne_nil_of_isStep {index : Nat} (h : isStep index x) : x ≠ [] := by
  rintro rfl
  simp [isStep] at h

theorem notMem_of_mem_pieces {cs : List Char} (h : x ∈ pieces cs) : '/' ∉ x := by
  induction cs generalizing x with
  | nil =>
      rw [pieces, List.mem_singleton] at h
      simp [h]
  | cons c cs ih =>
      rw [pieces] at h
      split at h
      · obtain rfl | h := List.mem_cons.1 h
        · simp
        · exact ih h
      · next hc =>
        split at h
        · rw [List.mem_singleton] at h
          simpa [h] using Ne.symm hc
        · next first others hcs =>
          rw [hcs] at ih
          obtain rfl | h := List.mem_cons.1 h
          · simpa [Ne.symm hc] using ih List.mem_cons_self
          · exact ih (List.mem_cons_of_mem _ h)

theorem pieces_joinPieces (hne : xs ≠ []) (hslash : ∀ x ∈ xs, '/' ∉ x) :
    pieces (joinPieces xs) = xs := by
  rw [pieces_eq_splitOn, joinPieces, List.splitOn_intercalate '/' hslash hne]

theorem isAbsolute_iff {path : String} :
    isAbsolute path ↔ ∃ rest, rest ≠ [] ∧ pieces path.toList = [] :: rest := by
  unfold isAbsolute
  cases path.toList with
  | nil => simp [pieces]
  | cons c cs =>
      rw [List.head?_cons, pieces]
      by_cases hc : c = '/'
      · simp [hc, pieces_eq_splitOn, List.splitOn_ne_nil]
      · rw [if_neg hc]
        split <;> simp [hc]

/-- The pieces that are not empty, as names. -/
def names (xs : List (List Char)) : List String := (xs.filter fun x => !x.isEmpty).map String.ofList

theorem names_append (xs ys : List (List Char)) : names (xs ++ ys) = names xs ++ names ys := by
  rw [names, List.filter_append, List.map_append]
  rfl

theorem names_idle (h : ∀ x ∈ xs, ∃ index, isStep index x = false) : ∀ name ∈ names xs, name = "." := by
  intro name hname
  obtain ⟨x, hx, rfl⟩ := List.mem_map.1 hname
  obtain ⟨hmem, hne⟩ := List.mem_filter.1 hx
  obtain ⟨index, hstep⟩ := h x hmem
  rw [(idle_of_not_isStep hstep).resolve_left (by simpa using hne)]

theorem length_names_pieces_le (cs : List Char) : (names (pieces cs)).length ≤ cs.length := by
  unfold names
  rw [List.length_map]
  induction cs with
  | nil => simp [pieces]
  | cons c cs ih =>
      rw [pieces]
      split
      · exact Nat.le_succ_of_le ih
      · cases hcs : pieces cs with
        | nil => simp
        | cons first others =>
            rw [hcs] at ih
            have hothers : (others.filter fun x => !x.isEmpty).length ≤
                ((first :: others).filter fun x => !x.isEmpty).length :=
              ((List.sublist_cons_self first others).filter _).length_le
            rw [List.filter_cons_of_pos (by simp), List.length_cons, List.length_cons]
            exact Nat.succ_le_succ (Nat.le_trans hothers ih)

end Path

open Path

namespace FileTree

theorem stepsOf_eq (path : String) : ∃ tail, stepsOf path = names (pieces path.toList) ++ tail ∧
    (∀ name ∈ tail, name = ".") ∧ ((pieces path.toList).getLast? ≠ some [] → tail = []) := by
  unfold stepsOf
  by_cases hslash : (pieces path.toList).getLast? == some [] && !(names (pieces path.toList)).isEmpty
  · refine ⟨["."], if_pos hslash, by simp, ?_⟩
    intro hne
    simp [hne] at hslash
  · exact ⟨[], by rw [List.append_nil]; exact if_neg hslash, by simp, fun _ => rfl⟩

theorem stepsOf_of_isStep {path : String} {xs : List (List Char)} {x : List Char} {index : Nat}
    (hpieces : pieces path.toList = xs ++ [x]) (hstep : isStep index x) :
    stepsOf path = names (xs ++ [x]) := by
  obtain ⟨tail, hsteps, -, htail⟩ := stepsOf_eq path
  rw [hsteps, hpieces, htail, List.append_nil]
  rw [hpieces, List.getLast?_concat]
  simpa using ne_nil_of_isStep hstep

/-! ### The path above -/

/-- Whether a path ends with its last name. -/
def Tidy (path : String) : Prop :=
  upToLast isStep 0 (pieces path.toList) = [] ∨
    upToLast isStep 0 (pieces path.toList) = pieces path.toList

/-- Whether `path` goes from where `above` leads to down to `name`. -/
structure Continues (above path name : String) (between after : List String) : Prop where
  absolute : isAbsolute above = isAbsolute path
  steps : stepsOf path = stepsOf above ++ (between ++ name :: after)
  before_name : ∀ dot ∈ between, dot = "."
  after_name : ∀ dot ∈ after, dot = "."
  tidy : Tidy path → after = []
  last : (upToLast isStep 0 (pieces path.toList)).getLast? = some name.toList

section Parent

variable {above path : String}

theorem Continues.length_lt {name : String} {between after : List String}
    (h : Continues above path name between after) :
    (stepsOf above).length < (stepsOf path).length := by
  rw [h.steps, List.length_append, List.length_append, List.length_cons]
  omega

theorem exists_of_parent? (h : parent? path = some above) :
    ∃ init name, upToLast isStep 0 (pieces path.toList) = init ++ [name] ∧
      (upToLast isStep 0 init = [] ∧ above = (if isAbsolute path then "/" else "") ∨
        upToLast isStep 0 init ≠ [] ∧ above = .ofList (joinPieces (upToLast isStep 0 init))) := by
  unfold parent? at h
  split at h
  · cases h
  · next hsteps =>
    obtain ⟨init, name, heq⟩ := List.eq_nil_or_concat' _ |>.resolve_left hsteps
    rw [heq, List.dropLast_concat] at h
    refine ⟨init, name, heq, ?_⟩
    split at h
    · next hinit => exact Or.inl ⟨hinit, (Option.some.inj h).symm⟩
    · next hinit => exact Or.inr ⟨hinit, (Option.some.inj h).symm⟩

/-- The path above is written without anything after its last name. -/
theorem above_of_parent? (h : parent? path = some above) :
    Tidy above ∧ (stepsOf above).length ≤ above.length ∧ isAbsolute above = isAbsolute path ∧
      ∃ init name, upToLast isStep 0 (pieces path.toList) = init ++ [name] ∧
        stepsOf above = names (upToLast isStep 0 init) := by
  obtain ⟨init, name, hsteps, ⟨hinit, rfl⟩ | ⟨hinit, rfl⟩⟩ := exists_of_parent? h
  · refine ⟨?_, ?_, ?_, init, name, hsteps, ?_⟩
    · left
      split <;> decide
    · split <;> decide
    · split
      · next habsolute => rw [habsolute]; decide
      · next hrelative => rw [Bool.eq_false_iff.2 hrelative]; decide
    · rw [hinit]
      split <;> decide
  · obtain ⟨rest, hpath, -⟩ := exists_eq_upToLast_append isStep 0 (pieces path.toList)
    obtain ⟨mid, hmid, -⟩ := exists_eq_upToLast_append isStep 0 init
    obtain ⟨before, last, hbefore⟩ := List.eq_nil_or_concat' _ |>.resolve_left hinit
    have hlast : isStep before.length last := by
      simpa using last_of_upToLast hbefore
    rw [hsteps, hmid, hbefore] at hpath
    have hpieces : pieces (String.ofList (joinPieces (before ++ [last]))).toList =
        before ++ [last] := by
      rw [String.toList_ofList]
      apply pieces_joinPieces (by simp)
      intro x hx
      have hmem : x ∈ pieces path.toList := by
        rw [hpath]
        exact List.mem_append_left _ (List.mem_append_left _ (List.mem_append_left _ hx))
      exact notMem_of_mem_pieces hmem
    rw [hbefore]
    refine ⟨?_, ?_, ?_, init, name, hsteps, ?_⟩
    · right
      rw [hpieces]
      exact upToLast_concat (by simpa using hlast)
    · have hle := length_names_pieces_le (String.ofList (joinPieces (before ++ [last]))).toList
      rw [hpieces, String.length_toList] at hle
      rwa [stepsOf_of_isStep hpieces hlast]
    · rw [Bool.eq_iff_iff, isAbsolute_iff, isAbsolute_iff, hpieces, hpath]
      cases before with
      | nil => simp [ne_nil_of_isStep hlast]
      | cons first before => simp
    · rw [hbefore]
      exact stepsOf_of_isStep hpieces hlast

theorem continues_of_parent? (h : parent? path = some above) :
    ∃ name between after, Continues above path name between after := by
  obtain ⟨-, -, habsolute, init, name, hsteps, habove⟩ := above_of_parent? h
  obtain ⟨rest, hpath, hrest⟩ := exists_eq_upToLast_append isStep 0 (pieces path.toList)
  obtain ⟨mid, hmid, hidle⟩ := exists_eq_upToLast_append isStep 0 init
  obtain ⟨tail, htail, hdots, htidy⟩ := stepsOf_eq path
  have hinit : names init = stepsOf above ++ names mid := by
    rw [habove, ← names_append, ← hmid]
  have hne : name ≠ [] := ne_nil_of_isStep (last_of_upToLast hsteps)
  rw [hsteps] at hpath
  refine ⟨.ofList name, names mid, names rest ++ tail, habsolute, ?_, names_idle hidle, ?_, ?_, ?_⟩
  · rw [htail, hpath, names_append, names_append, hinit]
    simp [names, hne]
  · intro dot hdot
    exact (List.mem_append.1 hdot).elim (names_idle hrest dot) (hdots dot)
  · rintro (hnone | hall)
    · rw [hsteps] at hnone
      simp at hnone
    · have hnothing : rest = [] := by
        rw [hsteps] at hall
        exact List.append_cancel_left (by rw [List.append_nil, ← hpath, ← hall])
      rw [hnothing] at hpath ⊢
      rw [htidy, List.append_nil]
      · rfl
      · rw [hpath, List.append_nil, List.getLast?_concat]
        simpa using hne
  · rw [hsteps, List.getLast?_concat, String.toList_ofList]

/-- Without a path above it, a path is empty or leads to the top. -/
theorem steps_of_parent?_eq_none (h : parent? path = none) :
    path = "" ∨ isAbsolute path ∧ ∀ dot ∈ stepsOf path, dot = "." := by
  have hnone : upToLast isStep 0 (pieces path.toList) = [] := by
    unfold parent? at h
    split at h
    · assumption
    · split at h <;> cases h
  obtain ⟨rest, hpath, hrest⟩ := exists_eq_upToLast_append isStep 0 (pieces path.toList)
  rw [hnone, List.nil_append] at hpath
  by_cases hempty : path = ""
  · exact Or.inl hempty
  · right
    constructor
    · rw [isAbsolute_iff]
      cases hpieces : pieces path.toList with
      | nil =>
          rw [pieces_eq_splitOn] at hpieces
          exact absurd hpieces (List.splitOn_ne_nil _ _)
      | cons first others =>
          rw [hpieces] at hnone
          have hfirst : first = [] := by simpa [isStep] using not_of_upToLast_cons hnone
          subst hfirst
          refine ⟨others, ?_, rfl⟩
          rintro rfl
          have hjoined : ['/'].intercalate (pieces path.toList) = path.toList := by
            rw [pieces_eq_splitOn, List.intercalate_splitOn]
          rw [hpieces] at hjoined
          exact hempty (String.toList_eq_nil_iff.1 hjoined.symm)
    · obtain ⟨tail, htail, hdots, -⟩ := stepsOf_eq path
      rw [htail, hpath]
      intro dot hdot
      exact (List.mem_append.1 hdot).elim (names_idle hrest dot) (hdots dot)

end Parent

end FileTree

end EndpointAtlas
