import EndpointAtlas.Proofs.TypeReference
import Mathlib.Data.List.Infix

/-!
# What a written reference leaves

All that stands in brackets is erased, and so are the brackets and white space. Between the dots at both
ends of what is left stand the qualifier and the name, and reading these once more gives the reference
again.
-/

namespace EndpointAtlas.TypeReference

open Text

variable {c : Char} {cs before a b u v : List Char} {depth : Nat} {text : String} {r : TypeReference}

/-! ### Brackets -/

/-- Whether what comes after a text stands in brackets: there is an end of the text that opens more of
them than it closes. -/
def IsOpen (before : List Char) : Prop := ∃ s, s <:+ before ∧ s.count '>' < s.count '<'

instance (before : List Char) : Decidable (IsOpen before) :=
  decidable_of_iff (∃ s ∈ before.tails, s.count '>' < s.count '<')
    (by simp only [IsOpen, List.mem_tails])

/-- Whether a character that stands after a text is outside brackets, and neither white space nor a bracket
itself. -/
def IsKept (before : List Char) (c : Char) : Prop :=
  ¬ IsOpen before ∧ c ≠ '<' ∧ c ≠ '>' ∧ isWhitespace c = false

instance (before : List Char) (c : Char) : Decidable (IsKept before c) :=
  inferInstanceAs (Decidable (_ ∧ _))

/-- The characters of a text that stand outside its brackets, but for white space and the brackets. -/
def outside (cs : List Char) : List Char :=
  ((cs.inits.zip cs).filter fun place => IsKept place.1 place.2).map (·.2)

/-- A text that closes just the brackets that it has opened. -/
structure IsBalanced (cs : List Char) : Prop where
  opened : ∀ before, before <+: cs → before.count '>' ≤ before.count '<'
  closed : cs.count '<' = cs.count '>'

instance (cs : List Char) : Decidable (IsBalanced cs) :=
  decidable_of_iff ((∀ before ∈ cs.inits, before.count '>' ≤ before.count '<') ∧
      cs.count '<' = cs.count '>')
    ⟨fun h => ⟨fun p hp => h.1 p (List.mem_inits p cs |>.2 hp), h.2⟩,
      fun h => ⟨fun p hp => h.opened p ((List.mem_inits p cs).1 hp), h.closed⟩⟩

/-- How many brackets are open after a text. A `>` that closes nothing makes no difference, so the count
is the greatest surplus of any end of the text. -/
structure IsDepth (before : List Char) (depth : Nat) : Prop where
  bound : ∀ s, s <:+ before → s.count '<' ≤ s.count '>' + depth
  reached : ∃ s, s <:+ before ∧ s.count '<' = s.count '>' + depth

theorem isDepth_nil : IsDepth [] 0 where
  bound s hs := by simp [List.suffix_nil.1 hs]
  reached := ⟨[], List.suffix_refl [], rfl⟩

theorem IsDepth.isKept_iff (h : IsDepth before depth) :
    IsKept before c ↔ depth = 0 ∧ c ≠ '<' ∧ c ≠ '>' ∧ isWhitespace c = false := by
  have hopen : ¬ IsOpen before ↔ depth = 0 := by
    constructor
    · intro hclosed
      obtain ⟨s, hs, hcount⟩ := h.reached
      by_contra hdepth
      exact hclosed ⟨s, hs, by omega⟩
    · rintro rfl ⟨s, hs, hlt⟩
      have hbound := h.bound s hs
      omega
  rw [IsKept, hopen]

/-- One more character changes the number of open brackets as it does for the eraser. -/
theorem IsDepth.concat (h : IsDepth before depth) (c : Char) :
    IsDepth (before ++ [c]) (if c = '<' then depth + 1 else if c = '>' then depth - 1 else depth) := by
  constructor
  · intro s hs
    obtain rfl | ⟨front, rfl, hfront⟩ := List.suffix_concat_iff.1 hs
    · simp
    · have hbound := h.bound front hfront
      simp only [List.count_append, List.count_singleton, beq_iff_eq]
      split_ifs <;> omega
  · by_cases hstray : c = '>' ∧ depth = 0
    · obtain ⟨rfl, rfl⟩ := hstray
      exact ⟨[], List.nil_suffix, rfl⟩
    · obtain ⟨s, hs, hcount⟩ := h.reached
      refine ⟨s ++ [c], List.suffix_concat_iff.2 (Or.inr ⟨s, rfl, hs⟩), ?_⟩
      simp only [List.count_append, List.count_singleton, beq_iff_eq]
      by_cases hopening : c = '<'
      · simp [hopening, hcount, Nat.add_assoc]
      · split_ifs with hclosing
        · have hdepth : depth ≠ 0 := fun hzero => hstray ⟨hclosing, hzero⟩
          omega
        · exact hcount

/-! ### What is erased -/

theorem erase_cons (depth : Nat) (c : Char) (cs : List Char) :
    erase depth (c :: cs) =
      (if depth = 0 ∧ c ≠ '<' ∧ c ≠ '>' ∧ isWhitespace c = false then [c] else []) ++
        erase (if c = '<' then depth + 1 else if c = '>' then depth - 1 else depth) cs := by
  rw [erase]
  by_cases hopening : c = '<'
  · simp [hopening]
  by_cases hclosing : c = '>'
  · simp [hclosing]
  cases hblank : isWhitespace c <;> by_cases hdepth : depth = 0 <;> simp [hopening, hclosing, hdepth]

theorem erase_eq_filter (h : IsDepth before depth) (cs : List Char) : erase depth cs =
    ((cs.inits.zip cs).filter fun place => IsKept (before ++ place.1) place.2).map (·.2) := by
  induction cs generalizing before depth with
  | nil => rfl
  | cons c cs ih =>
      have hplaces : (c :: cs).inits.zip (c :: cs) =
          ([], c) :: (cs.inits.zip cs).map fun place => (c :: place.1, place.2) := by
        rw [List.inits_cons, List.zip_cons_cons, List.zip_map_left]
        rfl
      rw [erase_cons, ih (h.concat c), hplaces, List.filter_cons, List.filter_map, List.append_nil]
      simp only [decide_eq_true_eq, h.isKept_iff]
      split <;> simp [Function.comp_def]

theorem erase_eq_outside (cs : List Char) : erase 0 cs = outside cs :=
  erase_eq_filter isDepth_nil cs

/-- What is erased alike at every depth is erased alike after any text. -/
theorem erase_append_congr (h : ∀ depth, erase depth u = erase depth v) (a : List Char)
    (depth : Nat) : erase depth (a ++ u) = erase depth (a ++ v) := by
  induction a generalizing depth with
  | nil => exact h depth
  | cons c a ih => rw [List.cons_append, List.cons_append, erase_cons, erase_cons, ih]

/-- A text that closes all brackets open in it, and `extra` brackets open before it. -/
theorem erase_closing {g : List Char} {extra : Nat}
    (hopened : ∀ before, before <+: g → before.count '>' ≤ before.count '<' + extra)
    (hclosed : g.count '<' + extra = g.count '>') (depth : Nat) (rest : List Char) :
    erase (depth + 1 + extra) (g ++ rest) = erase (depth + 1) rest := by
  induction g generalizing extra with
  | nil =>
      obtain rfl : extra = 0 := by simpa using hclosed
      rfl
  | cons c g ih =>
      have hlater (before : List Char) (hbefore : before <+: g) :
          (c :: before).count '>' ≤ (c :: before).count '<' + extra :=
        hopened _ (List.cons_prefix_cons.2 ⟨rfl, hbefore⟩)
      have hfirst : c = '>' → extra ≠ 0 := by
        rintro rfl rfl
        exact absurd (hlater [] List.nil_prefix) (by decide)
      have hdepth : (if c = '<' then depth + 1 + extra + 1 else
            if c = '>' then depth + 1 + extra - 1 else depth + 1 + extra) =
          depth + 1 + if c = '<' then extra + 1 else if c = '>' then extra - 1 else extra := by
        split_ifs with hopening hclosing
        · rfl
        · have hextra := hfirst hclosing
          omega
        · rfl
      rw [List.cons_append, erase_cons, if_neg (by omega), List.nil_append, hdepth]
      refine ih (fun before hbefore => ?_) ?_
      · have hcount := hlater before hbefore
        simp only [List.count_cons, beq_iff_eq] at hcount
        split_ifs at hcount ⊢ <;> omega
      · simp only [List.count_cons, beq_iff_eq] at hclosed
        by_cases hopening : c = '<'
        · simp only [hopening] at hclosed ⊢
          simp at hclosed ⊢
          omega
        · split_ifs at hclosed ⊢ with hclosing
          · have hextra := hfirst hclosing
            omega
          · exact hclosed

/-- Brackets are erased with what stands in them, at whatever depth. -/
theorem erase_group {g : List Char} (h : IsBalanced g) (depth : Nat) (rest : List Char) :
    erase depth ('<' :: g ++ '>' :: rest) = erase depth rest := by
  have hinside : erase (depth + 1) (g ++ '>' :: rest) = erase (depth + 1) ('>' :: rest) :=
    @erase_closing g 0 h.opened h.closed depth _
  rw [List.cons_append, erase_cons, if_neg (by simp), if_pos rfl, hinside, erase_cons, if_neg (by simp),
    if_neg (by decide), if_pos rfl, Nat.add_sub_cancel]
  rfl

theorem erase_compact (depth : Nat) (cs : List Char) : erase depth (compact cs) = erase depth cs := by
  induction cs generalizing depth with
  | nil => rfl
  | cons c cs ih =>
      cases hblank : isWhitespace c with
      | false => rw [compact, List.filter_cons_of_pos (by simp [hblank]), erase_cons, erase_cons, ← ih]; rfl
      | true =>
          have hopening : c ≠ '<' := by rintro rfl; cases hblank
          have hclosing : c ≠ '>' := by rintro rfl; cases hblank
          rw [compact, List.filter_cons_of_neg (by simp [hblank]), erase_cons, if_neg (by simp [hblank]),
            if_neg hopening, if_neg hclosing, ← ih]
          rfl

theorem erase_blanks (h : ∀ c ∈ cs, isWhitespace c) (depth : Nat) (rest : List Char) :
    erase depth (cs ++ rest) = erase depth rest := by
  rw [← erase_compact, ← erase_compact depth rest, compact, List.filter_append,
    List.filter_eq_nil_iff.2 fun c hc => by simp [h c hc], List.nil_append, compact]

theorem erase_append_of_plain (h : ∀ c ∈ cs, c ≠ '<' ∧ c ≠ '>' ∧ isWhitespace c = false)
    (rest : List Char) : erase 0 (cs ++ rest) = cs ++ erase 0 rest := by
  induction cs with
  | nil => rfl
  | cons c cs ih =>
      rw [List.forall_mem_cons] at h
      rw [List.cons_append, erase_cons, if_pos ⟨rfl, h.1⟩, if_neg h.1.1, if_neg h.1.2.1, ih h.2]
      rfl

theorem erase_of_plain (h : ∀ c ∈ cs, c ≠ '<' ∧ c ≠ '>' ∧ isWhitespace c = false) :
    erase 0 cs = cs := by
  rw [← List.append_nil cs, erase_append_of_plain h, erase]

/-! ### Dots at the ends -/

/-- Before and after what is kept there are only dots. -/
theorem exists_replicate_trimEnds (cs : List Char) : ∃ i j,
    cs = List.replicate i '.' ++ trimEnds (· == '.') cs ++ List.replicate j '.' := by
  obtain ⟨before, after, hcs, hbefore, hafter⟩ := exists_append_trimEnds (· == '.') cs
  obtain ⟨i, hlead⟩ : ∃ i, before = List.replicate i '.' :=
    ⟨_, List.eq_replicate_of_mem fun c hc => by simpa using hbefore c hc⟩
  obtain ⟨j, htrail⟩ : ∃ j, after = List.replicate j '.' :=
    ⟨_, List.eq_replicate_of_mem fun c hc => by simpa using hafter c hc⟩
  refine ⟨i, j, ?_⟩
  rw [← hlead, ← htrail]
  exact hcs

theorem mem_trimEnds (h : c ∈ cs) (hc : c ≠ '.') : c ∈ trimEnds (· == '.') cs := by
  obtain ⟨i, j, hcs⟩ := exists_replicate_trimEnds cs
  rw [hcs, List.mem_append, List.mem_append] at h
  obtain (h | h) | h := h
  · exact absurd (List.eq_of_mem_replicate h) hc
  · exact h
  · exact absurd (List.eq_of_mem_replicate h) hc

/-- There is nothing to trim of a text with no dot at its ends. -/
theorem trimEnds_eq_self (hhead : cs.head? ≠ some '.') (hlast : cs.getLast? ≠ some '.') :
    trimEnds (· == '.') cs = cs := by
  have hkept : trimEnds (· == '.') ([] ++ cs ++ []) = cs :=
    trimEnds_append_append (by simp) (by simp) (fun c hc => eq_of_beq hc ▸ hhead)
      fun c hc => eq_of_beq hc ▸ hlast
  rwa [List.nil_append, List.append_nil] at hkept

theorem trimEnds_eq_nil_iff : trimEnds (· == '.') cs = [] ↔ ∀ c ∈ cs, c = '.' := by
  constructor
  · intro hnil c hc
    obtain ⟨i, j, hcs⟩ := exists_replicate_trimEnds cs
    rw [hnil, List.append_nil] at hcs
    rw [hcs, List.mem_append] at hc
    exact hc.elim List.eq_of_mem_replicate List.eq_of_mem_replicate
  · intro hdots
    refine List.eq_nil_iff_forall_not_mem.2 fun c hc => ?_
    obtain ⟨d, kept, hkept⟩ := List.exists_cons_of_ne_nil (List.ne_nil_of_mem hc)
    have hd : d = '.' := hdots d (mem_of_mem_trimEnds (hkept ▸ List.mem_cons_self))
    rw [hd] at hkept
    exact trimEnds_ne_cons rfl hkept

/-! ### What is read -/

theorem parse_congr {s t : String} (h : trimEnds (· == '.') (erase 0 s.toList) =
    trimEnds (· == '.') (erase 0 t.toList)) : parse s = parse t := by
  rw [parse, parse, h]

theorem parse_eq_none_iff : parse text = none ↔ ∀ c ∈ erase 0 text.toList, c = '.' := by
  rw [← trimEnds_eq_nil_iff, parse]
  constructor
  · intro h
    split at h
    · next hnil => exact hnil
    · split at h <;> cases h
  · intro h
    rw [h]

/-- The qualified name is all that is kept of the text. -/
theorem toList_qualifiedKey_of_parse (h : parse text = some r) :
    r.qualifiedKey.toList = trimEnds (· == '.') (erase 0 text.toList) := by
  have hformed := wellFormed_of_parse h
  obtain ⟨-, -, rfl⟩ | ⟨qualifier, name, hcut, -, rfl⟩ := cut_of_parse h
  · exact String.toList_ofList
  · have hqualifier : (String.ofList qualifier).isEmpty = false := by
      rw [← Bool.not_eq_true, String.isEmpty_iff]
      exact fun hempty => hformed.qualifier_nonempty (congrArg some hempty)
    rw [qualifiedKey, hcut]
    simp only [hqualifier, Bool.false_eq_true, if_false, toList_qualified, String.toList_ofList]

theorem parse_qualifiedKey (h : parse text = some r) : parse r.qualifiedKey = some r := by
  have hkey := toList_qualifiedKey_of_parse h
  have hplain : erase 0 r.qualifiedKey.toList = r.qualifiedKey.toList := by
    refine erase_of_plain fun c hc => ?_
    rw [hkey] at hc
    exact plain_of_mem_erase (mem_of_mem_trimEnds hc)
  have htrimmed : trimEnds (· == '.') r.qualifiedKey.toList = r.qualifiedKey.toList := by
    rw [hkey]
    exact trimEnds_eq_self (head?_trimEnds_ne rfl) (getLast?_trimEnds_ne rfl)
  rw [← h]
  apply parse_congr
  rw [hplain, htrimmed, hkey]

/-- A reference is what a text leaves outside its brackets, without the dots at both ends, and there is
none where nothing else is left. Read once more, its qualified name gives the same reference. Neither
brackets around a balanced text make a difference nor white space, wherever it stands. -/
theorem parse_outside :
    (∀ text, parse text = none ↔ ∀ c ∈ outside text.toList, c = '.') ∧
    (∀ text r, parse text = some r → r.WellFormed ∧
      (∃ i j, outside text.toList =
        List.replicate i '.' ++ r.qualifiedKey.toList ++ List.replicate j '.') ∧
      r.qualifiedKey.toList.head? ≠ some '.' ∧ r.qualifiedKey.toList.getLast? ≠ some '.' ∧
      parse r.qualifiedKey = some r) ∧
    (∀ a g b : String, IsBalanced g.toList →
      parse (a ++ "<" ++ g ++ ">" ++ b) = parse (a ++ b)) ∧
    (∀ s t : String, compact s.toList = compact t.toList → parse s = parse t) := by
  refine ⟨fun text => ?_, fun text r h => ?_, fun a g b hg => ?_, fun s t h => ?_⟩
  · rw [parse_eq_none_iff, erase_eq_outside]
  · have hkey := toList_qualifiedKey_of_parse h
    refine ⟨wellFormed_of_parse h, ?_, ?_, ?_, parse_qualifiedKey h⟩
    · rw [hkey, ← erase_eq_outside]
      exact exists_replicate_trimEnds _
    · rw [hkey]
      exact head?_trimEnds_ne rfl
    · rw [hkey]
      exact getLast?_trimEnds_ne rfl
  · have htext : (a ++ "<" ++ g ++ ">" ++ b).toList =
        a.toList ++ ('<' :: g.toList ++ '>' :: b.toList) := by
      simp [String.toList_append]
    apply parse_congr
    rw [htext, String.toList_append, erase_append_congr fun depth => erase_group hg depth b.toList]
  · apply parse_congr
    rw [← erase_compact 0 s.toList, h, erase_compact]

/-- Brackets in brackets, with white space before them and after. -/
theorem parse_outside_nested :
    let inner := "K, List<? extends V>"
    IsBalanced inner.toList ∧
      parse ("a. Map" ++ "<" ++ inner ++ ">" ++ " .Entry") = some ⟨some "a.Map", "Entry"⟩ := by
  intro inner
  have hinner : IsBalanced inner.toList := by decide
  obtain ⟨-, -, hgroup, hblank⟩ := parse_outside
  refine ⟨hinner, ?_⟩
  rw [hgroup _ _ _ hinner, hblank _ "a.Map.Entry" (by decide)]
  decide

end EndpointAtlas.TypeReference
