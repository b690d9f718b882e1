import EndpointAtlas.Usage
import EndpointAtlas.Proofs.SortedMap

/-!
# The ranking of types

A usage ranks its types by falling count, and by name where counts are equal. The types used most are
found by a search of their own; they are those that the ranking begins with, in its order.
-/

namespace EndpointAtlas

/-- A list that begins with what satisfies `p` is cut there by `takeWhile`. -/
theorem filter_eq_takeWhile {α : Type} {p : α → Bool} {xs : List α}
    (h : xs.Pairwise fun a b => p b → p a) : xs.filter p = xs.takeWhile p := by
  induction xs with
  | nil => rfl
  | cons x xs ih =>
      obtain ⟨hx, hxs⟩ := List.pairwise_cons.1 h
      by_cases hp : p x
      · rw [List.filter_cons_of_pos hp, List.takeWhile_cons_of_pos hp, ih hxs]
      · rw [List.takeWhile_cons_of_neg hp, List.filter_eq_nil_iff]
        rintro y hy
        obtain rfl | hy := List.mem_cons.1 hy
        · exact hp
        · exact fun hpy => hp (hx y hy hpy)

namespace Usage

variable {u : Usage} {a b c : String × Nat}

/-- Whether `a` comes before `b` in the ranking: by falling count, then by name. -/
def Outranks (a b : String × Nat) : Prop := b.2 < a.2 ∨ (a.2 = b.2 ∧ a.1 < b.1)

instance (a b : String × Nat) : Decidable (Outranks a b) := inferInstanceAs (Decidable (_ ∨ _))

theorem Outranks.le (h : Outranks a b) : b.2 ≤ a.2 :=
  h.elim Nat.le_of_lt fun htie => Nat.le_of_eq htie.1.symm

theorem Outranks.not_outranks (hab : Outranks a b) : ¬ Outranks b a := by
  intro hba
  have hsame : a.2 = b.2 := Nat.le_antisymm hba.le hab.le
  have hname := (hab.resolve_left fun hlt => absurd hsame (by omega)).2
  have hname' := (hba.resolve_left fun hlt => absurd hsame (by omega)).2
  exact Std.lt_irrefl (Std.lt_trans hname hname')

theorem ranksBefore_iff : ranksBefore a b ↔ b.2 < a.2 ∨ (a.2 = b.2 ∧ a.1 ≤ b.1) := by
  rw [ranksBefore, Bool.or_eq_true, Bool.and_eq_true, decide_eq_true_iff, beq_iff_eq,
    Bool.not_eq_true', decide_eq_false_iff_not, Std.not_lt]

theorem ranksBefore_trans (hab : ranksBefore a b) (hbc : ranksBefore b c) : ranksBefore a c := by
  rw [ranksBefore_iff] at hab hbc ⊢
  obtain hab | ⟨hab, hname⟩ := hab
  · exact Or.inl (by omega)
  obtain hbc | ⟨hbc, hname'⟩ := hbc
  · exact Or.inl (by omega)
  · exact Or.inr ⟨hab.trans hbc, Std.le_trans hname hname'⟩

theorem ranksBefore_total (a b : String × Nat) : ranksBefore a b || ranksBefore b a := by
  rw [Bool.or_eq_true, ranksBefore_iff, ranksBefore_iff]
  obtain hlt | heq | hlt := Nat.lt_trichotomy a.2 b.2
  · exact Or.inr (Or.inl hlt)
  · obtain hle | hle := Std.le_total (a := a.1) (b := b.1)
    · exact Or.inl (Or.inr ⟨heq, hle⟩)
    · exact Or.inr (Or.inr ⟨heq.symm, hle⟩)
  · exact Or.inl (Or.inl hlt)

theorem outranks_of_ranksBefore (h : ranksBefore a b) (hne : a.1 ≠ b.1) : Outranks a b :=
  (ranksBefore_iff.1 h).imp_right fun ⟨htie, hle⟩ => ⟨htie, Std.lt_of_le_of_ne hle hne⟩

/-! ### The whole ranking -/

def ranking (u : Usage) : List (String × Nat) := u.toList.mergeSort ranksBefore

theorem ranking_perm (u : Usage) : u.ranking.Perm u.toList := List.mergeSort_perm _ _

theorem length_ranking (u : Usage) : u.ranking.length = u.size := u.ranking_perm.length_eq

theorem mem_ranking_iff {type : String} {n : Nat} :
    (type, n) ∈ u.ranking ↔ u.get? type = some n := by
  rw [u.ranking_perm.mem_iff, get?, SortedMap.get?_eq_some_iff, toList]

theorem pairwise_ranking (u : Usage) : u.ranking.Pairwise Outranks := by
  have hkeys : (u.toList.map (·.1)).Nodup := u.counts.nodup_keys
  have hdistinct : u.ranking.Pairwise fun a b => a.1 ≠ b.1 :=
    List.pairwise_map.1 ((u.ranking_perm.map _).nodup_iff.2 hkeys)
  have hsorted : u.ranking.Pairwise fun a b => ranksBefore a b := by
    refine List.pairwise_mergeSort ?_ ?_ u.toList
    · exact fun _ _ _ => ranksBefore_trans
    · exact ranksBefore_total
  exact hsorted.imp₂ (fun _ _ => outranks_of_ranksBefore) hdistinct

/-- The order leaves one ranking only. -/
theorem ranking_eq {xs : List (String × Nat)} (hperm : u.toList.Perm xs)
    (hordered : xs.Pairwise Outranks) : u.ranking = xs :=
  (u.ranking_perm.trans hperm).eq_of_pairwise (fun _ _ _ _ hab hba => absurd hba hab.not_outranks)
    u.pairwise_ranking hordered

theorem top_size (u : Usage) : u.top u.size = u.ranking :=
  List.take_of_length_le (Nat.le_of_eq u.length_ranking)

/-! ### The types used most -/

/-- Under the highest count the types are those that the ranking begins with. -/
theorem filter_eq_takeWhile_ranking {count : Nat} (hmax : ∀ e ∈ u.toList, e.2 ≤ count) :
    u.toList.filter (·.2 == count) = u.ranking.takeWhile (·.2 == count) := by
  have hbegins : u.ranking.Pairwise fun a b => (b.2 == count) → (a.2 == count) := by
    refine u.pairwise_ranking.imp_of_mem ?_
    intro a b ha _ hab hb
    have hle := hab.le
    have hbound := hmax a (u.ranking_perm.mem_iff.1 ha)
    simp only [beq_iff_eq] at hb ⊢
    omega
  have hnames : (u.ranking.filter (·.2 == count)).Pairwise fun a b => a.1 < b.1 := by
    refine (u.pairwise_ranking.filter _).imp_of_mem ?_
    intro a b ha hb hab
    have hsame : a.2 = b.2 := by
      rw [eq_of_beq (List.mem_filter.1 ha).2, eq_of_beq (List.mem_filter.1 hb).2]
    exact (hab.resolve_left fun hlt => absurd hsame (by omega)).2
  rw [← filter_eq_takeWhile hbegins]
  refine (u.ranking_perm.symm.filter _).eq_of_pairwise ?_ (u.counts.sorted.filter _) hnames
  intro a b _ _ hab hba
  exact absurd (Std.lt_trans hab hba) Std.lt_irrefl

theorem mostUsed_eq_none_iff : u.mostUsed = none ↔ u.size = 0 := by
  rw [mostUsed, size, SortedMap.size, SortedMap.values, List.length_eq_zero_iff]
  cases hmax : (u.counts.toList.map (·.2)).max? with
  | none => simpa using List.max?_eq_none_iff.1 hmax
  | some count =>
      refine iff_of_false (by simp) fun hnone => ?_
      rw [hnone] at hmax
      cases hmax

theorem of_mostUsed {most : MostUsed} (h : u.mostUsed = some most) :
    (∃ e ∈ u.toList, e.2 = most.count) ∧ (∀ e ∈ u.toList, e.2 ≤ most.count) ∧
      most.types = (u.toList.filter (·.2 == most.count)).map (·.1) := by
  rw [mostUsed] at h
  split at h
  · next count hmax =>
    cases h
    rw [List.max?_eq_some_iff, SortedMap.values] at hmax
    exact ⟨List.mem_map.1 hmax.1, fun e he => hmax.2 _ (List.mem_map_of_mem he), rfl⟩
  · cases h

/-- The first of the ranking has the highest count. -/
theorem head?_ranking {count : Nat} (hmax : ∀ e ∈ u.toList, e.2 ≤ count)
    (hattained : ∃ e ∈ u.toList, e.2 = count) :
    ∃ first, u.ranking.head? = some first ∧ first.2 = count := by
  obtain ⟨e, he, rfl⟩ := hattained
  have hmem := u.ranking_perm.mem_iff.2 he
  cases hranking : u.ranking with
  | nil =>
      rw [hranking] at hmem
      cases hmem
  | cons first rest =>
      have hpairs := u.pairwise_ranking
      have hbound := hmax first (u.ranking_perm.mem_iff.1 (hranking ▸ List.mem_cons_self))
      rw [hranking] at hmem hpairs
      refine ⟨first, rfl, Nat.le_antisymm hbound ?_⟩
      obtain rfl | hrest := List.mem_cons.1 hmem
      · exact Nat.le_refl _
      · exact ((List.pairwise_cons.1 hpairs).1 e hrest).le

/-- The first types of the ranking are ranked among themselves and before all others, and more of them
are the same and some more. The types used most are those that the ranking begins with. -/
theorem top_mostUsed_ranked {u : Usage} {n m : Nat} (hnm : n ≤ m) :
    (u.top n).length = min n u.size ∧
    u.top n <+: u.top m ∧
    (u.top n).Nodup ∧
    (∀ e ∈ u.top n, u.get? e.1 = some e.2) ∧
    (u.top n).Pairwise Outranks ∧
    (∀ type count, u.get? type = some count → (type, count) ∉ u.top n →
      ∀ e ∈ u.top n, Outranks e (type, count)) ∧
    (u.mostUsed = none ↔ u.size = 0) ∧
    ∀ most, u.mostUsed = some most →
      (∃ type, u.get? type = some most.count) ∧
      (∀ type count, u.get? type = some count → count ≤ most.count) ∧
      ∃ first, (u.top u.size).head? = some first ∧
        most.types = ((u.top u.size).takeWhile (·.2 == first.2)).map (·.1) := by
  have hsplit : u.ranking = u.top n ++ u.ranking.drop n := (List.take_append_drop n u.ranking).symm
  have hpairs := u.pairwise_ranking
  rw [hsplit, List.pairwise_append] at hpairs
  have hentry {type : String} {count : Nat} (h : u.get? type = some count) :
      (type, count) ∈ u.toList := u.ranking_perm.mem_iff.1 (mem_ranking_iff.2 h)
  refine ⟨?_, List.take_prefix_take_left hnm, ?_, ?_, hpairs.1, ?_, mostUsed_eq_none_iff, ?_⟩
  · rw [top, List.length_take, ← length_ranking, ranking]
  · refine hpairs.1.imp ?_
    rintro a b hab rfl
    exact hab.not_outranks hab
  · exact fun e he => mem_ranking_iff.1 (List.mem_of_mem_take he)
  · intro type count hget hout e he
    have hmem := mem_ranking_iff.2 hget
    rw [hsplit, List.mem_append] at hmem
    exact hpairs.2.2 e he _ (hmem.resolve_left hout)
  · intro most hmost
    obtain ⟨⟨e, he, hcount⟩, hmax, htypes⟩ := of_mostUsed hmost
    obtain ⟨first, hfirst, hhighest⟩ := head?_ranking hmax ⟨e, he, hcount⟩
    refine ⟨⟨e.1, hcount ▸ SortedMap.get?_eq_some_iff.2 he⟩, fun type count hget => hmax _ (hentry hget),
      first, by rw [top_size, hfirst], ?_⟩
    rw [htypes, filter_eq_takeWhile_ranking hmax, top_size, hhighest]

/-- Two types used equally often, of which only one is among the first. -/
theorem top_mostUsed_ranked_tie :
    let u : Usage :=
      ⟨.ofList [("A", 0), ("B", 18446744073709551615), ("C", 18446744073709551615), ("D", 5)]⟩
    1 ≤ 3 ∧ u.top 1 <+: u.top 3 ∧ (u.top 3).length = 3 ∧
      u.top 3 = [("B", 18446744073709551615), ("C", 18446744073709551615), ("D", 5)] ∧
      u.mostUsed = some ⟨18446744073709551615, ["B", "C"]⟩ ∧
      ∃ first, (u.top u.size).head? = some first ∧
        ["B", "C"] = ((u.top u.size).takeWhile (·.2 == first.2)).map (·.1) := by
  intro u
  have hnm : 1 ≤ 3 := by decide
  have hmost : u.mostUsed = some ⟨18446744073709551615, ["B", "C"]⟩ := by decide
  have hranked := top_mostUsed_ranked (u := u) hnm
  obtain ⟨-, hprefix, -, -, -, -, -, hmostUsed⟩ := hranked
  have htop : u.top 3 = [("B", 18446744073709551615), ("C", 18446744073709551615), ("D", 5)] := by
    rw [top, ← ranking, ranking_eq (by decide) (by decide : List.Pairwise Outranks
      [("B", 18446744073709551615), ("C", 18446744073709551615), ("D", 5), ("A", 0)])]
    rfl
  exact ⟨hnm, hprefix, by rw [htop]; rfl, htop, hmost, (hmostUsed _ hmost).2.2⟩

/-! ### The printed summary -/

theorem summaryLines_of_size_eq_zero (h : u.size = 0) (n : Nat) :
    u.summaryLines n = ["Number of unique DTOs: 0", "", "== No DTOs found =="] := by
  have htop : u.top n = [] := by
    rw [top, ← ranking, List.length_eq_zero_iff.1 (u.length_ranking.trans h), List.take_nil]
  rw [summaryLines, mostUsed_eq_none_iff.2 h, htop, h]
  rfl

/-- What is printed of a usage is told by its ranking: how many types it has, those that are used as often
as its first, and the first `n` with their counts. -/
theorem summaryLines_of_ranked {first : String × Nat} {rest : List (String × Nat)}
    (hperm : u.toList.Perm (first :: rest)) (hordered : (first :: rest).Pairwise Outranks) (n : Nat) :
    let most := ((first :: rest).takeWhile (·.2 == first.2)).map (·.1)
    u.summaryLines n =
      [s!"Number of unique DTOs: {rest.length + 1}", "",
        "== Most used DTO: [" ++ ", ".intercalate most ++ s!"] (Used {first.2} times) =="] ++
        if n = 0 then []
        else ["", "== Frequently used DTOs ==", ""] ++
          ((first :: rest).take n).map fun e => s!"{e.1} : {e.2}" := by
  intro most
  have hranking : u.ranking = first :: rest := ranking_eq hperm hordered
  have hsize : u.size = rest.length + 1 := hperm.length_eq
  have hmost : u.mostUsed = some ⟨first.2, most⟩ := by
    cases hfound : u.mostUsed with
    | none =>
        rw [mostUsed_eq_none_iff, hsize] at hfound
        cases hfound
    | some found =>
        obtain ⟨hattained, hmax, htypes⟩ := of_mostUsed hfound
        obtain ⟨e, hfirst, hcount⟩ := head?_ranking hmax hattained
        rw [hranking, List.head?_cons, Option.some.injEq] at hfirst
        subst hfirst
        rw [filter_eq_takeWhile_ranking hmax, hranking, ← hcount] at htypes
        cases found with
        | mk count types =>
            cases hcount
            cases htypes
            rfl
  have htop : u.top n = (first :: rest).take n := by rw [top, ← ranking, hranking]
  rw [summaryLines, hmost, htop, hsize]
  cases n with
  | zero => rfl
  | succ n => rfl

end Usage

end EndpointAtlas
