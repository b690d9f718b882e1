import EndpointAtlas.Syntax.Lexeme
import Mathlib.Data.List.Induction
import Mathlib.Data.List.TakeWhile

/-!
# The text of a lexeme

A lexeme has the text that its terminal asks for: the spelling of a word or a mark, the characters of an
identifier, the slash that a comment begins with. With the blanks before it and what comes after it, it
makes up the text that it was read from.
-/

namespace EndpointAtlas

open Grammar Text

/-- What is sure of a text that a terminal was read from. -/
structure Grammar.Terminal.Spells (t : Terminal) (text : List Char) : Prop where
  spelled : ∀ s, t.spelling? = some s → text = s.toList
  identifier : t = .identifier → text ≠ [] ∧ ∀ c ∈ text, isIdentifierPart c
  comment : t = .lineComment ∨ t = .blockComment → text.head? = some '/'

namespace Syntax.Lexeme

variable {t u : Terminal} {n m : Nat} {cs word gap text : List Char} {s : String} {best : Match}
  {valid keywords : TerminalSet} {P : Terminal → Nat → Prop}

/-- Whether a text can stand before a lexeme: it is blank, but for the byte order mark that a source text
can begin with. -/
def IsGap (gap : List Char) : Prop := ∀ c ∈ gap, isBlank c ∨ c = '\uFEFF'

/-- Whether the lexeme has the text that its terminal asks for, and nothing else before it. -/
structure Spelled (l : Lexeme) : Prop where
  text : ∀ t, l.kind = some t → t.Spells l.text
  gap : IsGap l.gap

/-- Whether the lexeme is the beginning of a text that goes on with `rest`, and the end of input only at
the end. -/
structure Begins (l : Lexeme) (rest cs : List Char) : Prop where
  spelled : l.Spelled
  source : l.gap ++ l.text ++ rest = cs
  last : l.kind = some .endOfInput → rest = []

theorem isGap_nil : IsGap [] := List.forall_mem_nil _

theorem isGap_takeWhile (cs : List Char) : IsGap (cs.takeWhile isBlank) :=
  fun _ hc => Or.inl (List.mem_takeWhile_imp hc)

theorem isGap_gapOf (atStart : Bool) (cs : List Char) : IsGap (gapOf atStart cs) := by
  unfold gapOf
  split
  · next c rest =>
    split
    · next hmark =>
      refine List.forall_mem_cons.2 ⟨Or.inr ?_, isGap_takeWhile rest⟩
      exact eq_of_beq (Bool.and_eq_true_iff.1 hmark).2
    · exact isGap_takeWhile _
  · exact isGap_nil

/-! ### Words and marks -/

theorem spells_of_spelling? (h : t.spelling? = some s) : t.Spells s.toList := by
  refine ⟨?_, ?_, ?_⟩
  · intro s' h'
    rw [h] at h'
    cases h'
    rfl
  · rintro rfl
    cases h
  · rintro (rfl | rfl) <;> cases h

theorem spelling?_of_mem_marks (h : (word, t) ∈ marks) :
    ∃ s, t.spelling? = some s ∧ word = s.toList := by
  rw [marks, List.mem_filterMap] at h
  obtain ⟨u, -, hu⟩ := h
  cases hs : u.spelling? with
  | none =>
      rw [hs] at hu
      cases hu
  | some s =>
      rw [hs] at hu
      dsimp only at hu
      split at hu
      · cases hu
      · cases hu
        exact ⟨s, hs, rfl⟩

theorem spells_of_mem_marks (h : (word, t) ∈ marks) : t.Spells word := by
  obtain ⟨s, hs, rfl⟩ := spelling?_of_mem_marks h
  exact spells_of_spelling? hs

theorem spelling?_ne_empty (t : Terminal) : t.spelling? ≠ some "" := by
  cases t <;> simp [Terminal.spelling?]

theorem ne_endOfInput_of_spelling? (h : t.spelling? = some s) : t ≠ .endOfInput := by
  rintro rfl
  cases h

/-- A keyword has its spelling, and would do as an identifier. -/
theorem spells_of_mem_words (h : (word, t) ∈ words) :
    (t ≠ .endOfInput ∧ t.Spells word) ∧ Terminal.identifier.Spells word := by
  rw [words, List.mem_filterMap] at h
  obtain ⟨u, -, hu⟩ := h
  cases hs : u.spelling? with
  | none =>
      rw [hs] at hu
      cases hu
  | some s =>
      rw [hs] at hu
      dsimp only at hu
      split at hu
      · next hall =>
        cases hu
        refine ⟨⟨ne_endOfInput_of_spelling? hs, spells_of_spelling? hs⟩, nofun,
          fun _ => ⟨?_, by simpa using hall⟩, by simp⟩
        rw [Ne, String.toList_eq_nil_iff]
        rintro rfl
        exact spelling?_ne_empty _ hs
      · cases hu

theorem spells_of_keyword? (h : keyword? word = some t) :
    (t ≠ .endOfInput ∧ t.Spells word) ∧ Terminal.identifier.Spells word := by
  rw [keyword?, List.lookup_eq_some_iff] at h
  obtain ⟨before, after, hwords, -⟩ := h
  apply spells_of_mem_words
  rw [hwords]
  exact List.mem_append_right _ List.mem_cons_self

/-- A terminal that may be spelled in any way. -/
def IsFree (t : Terminal) : Prop :=
  t.spelling? = none ∧ t ≠ .identifier ∧ t ≠ .lineComment ∧ t ≠ .blockComment

instance (t : Terminal) : Decidable (IsFree t) := inferInstanceAs (Decidable (_ ∧ _))

theorem IsFree.spells (h : IsFree t) (text : List Char) : t.Spells text := by
  obtain ⟨hspelling, hidentifier, hline, hblock⟩ := h
  refine ⟨?_, fun heq => absurd heq hidentifier, ?_⟩
  · intro s hs
    rw [hspelling] at hs
    cases hs
  · rintro (heq | heq)
    · exact absurd heq hline
    · exact absurd heq hblock

theorem isFree_literals : ∀ e ∈ literals, e.1 ≠ .endOfInput ∧ IsFree e.1 := by decide

theorem isFree_contents : ∀ e ∈ contents, e.1 ≠ .endOfInput ∧ IsFree e.1 := by decide

/-! ### The longest match

What holds of every match that is considered holds of the longest. -/

theorem of_longer (hbest : ∀ u m, best = some (u, m) → P u m) (ht : 0 < n → P t n) :
    ∀ u m, longer best t n = some (u, m) → P u m := by
  intro u m h
  unfold longer at h
  split at h
  · split at h
    · next hlt =>
      cases h
      exact ht (Nat.zero_lt_of_lt hlt)
    · exact hbest u m h
  · split at h
    · cases h
    · next hne =>
      cases h
      exact ht (Nat.pos_of_ne_zero (by simpa using hne))

theorem of_matchMarks (hbest : ∀ u m, best = some (u, m) → P u m)
    (hmark : ∀ spelling t, (spelling, t) ∈ marks → cs.take spelling.length = spelling →
      P t spelling.length) :
    ∀ u m, matchMarks valid cs best = some (u, m) → P u m := by
  apply List.foldlRecOn (motive := fun best : Match => ∀ u m, best = some (u, m) → P u m) _ _ hbest
  rintro best hbest ⟨spelling, t⟩ hmem
  dsimp only
  split
  · next hprefix =>
    rw [Bool.and_eq_true, List.isPrefixOf_iff_prefix] at hprefix
    exact of_longer hbest fun _ => hmark spelling t hmem (List.prefix_iff_eq_take.1 hprefix.1).symm
  · exact hbest

theorem of_matchTable {table : List (Terminal × (List Char → Nat))}
    (hbest : ∀ u m, best = some (u, m) → P u m) (htable : ∀ e ∈ table, P e.1 (e.2 cs)) :
    ∀ u m, matchTable table valid cs best = some (u, m) → P u m := by
  apply List.foldlRecOn (motive := fun best : Match => ∀ u m, best = some (u, m) → P u m) _ _ hbest
  rintro best hbest ⟨t, measure⟩ hmem
  dsimp only
  split
  · exact of_longer hbest fun _ => htable _ hmem
  · exact hbest

theorem spells_identifier (h : 0 < identifier cs) :
    Terminal.identifier.Spells (cs.take (identifier cs)) := by
  cases cs with
  | nil => cases h
  | cons c cs =>
      rw [identifier] at h ⊢
      split at h
      · next hc =>
        rw [if_pos hc, Nat.add_comm, List.take_succ_cons,
          ← List.prefix_iff_eq_take.1 (List.takeWhile_prefix isIdentifierPart)]
        refine ⟨fun _ h => (nomatch h), fun _ => ⟨List.cons_ne_nil _ _, ?_⟩, by simp⟩
        rw [List.forall_mem_cons]
        refine ⟨isIdentifierPart_of_start hc, ?_⟩
        intro d hd
        exact List.all_eq_true.1 List.all_takeWhile d hd
      · cases h

theorem of_matchWord (hbest : ∀ u m, best = some (u, m) → P u m)
    (hword : ∀ t, t ≠ .endOfInput ∧ t.Spells (cs.take (identifier cs)) → P t (identifier cs)) :
    ∀ u m, matchWord valid keywords cs best = some (u, m) → P u m := by
  unfold matchWord
  split
  · dsimp only
    split
    · next t hkeyword =>
      obtain ⟨hspells, hidentifier⟩ := spells_of_keyword? hkeyword
      refine of_longer hbest fun _ => ?_
      split
      · exact hword t hspells
      · exact hword _ ⟨nofun, hidentifier⟩
    · exact of_longer hbest fun hpos => hword _ ⟨nofun, spells_identifier hpos⟩
  · exact hbest

theorem spells_comment (ht : t = .lineComment ∨ t = .blockComment) (htext : text.head? = some '/') :
    t.Spells text := by
  refine ⟨?_, ?_, fun _ => htext⟩
  · intro s hs
    obtain rfl | rfl := ht <;> cases hs
  · rintro rfl
    obtain h | h := ht <;> cases h

theorem of_matchComment (hbest : ∀ u m, best = some (u, m) → P u m)
    (hcomment : ∀ t n, t = .lineComment ∨ t = .blockComment → t.Spells (cs.take n) → P t n) :
    ∀ u m, matchComment cs best = some (u, m) → P u m := by
  have hslash {rest : List Char} {t : Terminal} {n : Nat} (hcs : cs = '/' :: rest)
      (ht : t = .lineComment ∨ t = .blockComment) (hpos : 0 < n) : P t n := by
    refine hcomment t n ht (spells_comment ht ?_)
    cases n with
    | zero => cases hpos
    | succ n => rw [hcs, List.take_succ_cons, List.head?_cons]
  unfold matchComment
  split
  · refine of_longer (of_longer hbest ?_) ?_
    · exact hslash rfl (Or.inl rfl)
    · exact hslash rfl (Or.inr rfl)
  · exact hbest

theorem spells_outside :
    ∀ t n, outside valid keywords cs = some (t, n) → t ≠ .endOfInput ∧ t.Spells (cs.take n) := by
  have hmarks : ∀ u m, matchMarks valid cs none = some (u, m) →
      u ≠ .endOfInput ∧ u.Spells (cs.take m) := by
    refine of_matchMarks (fun _ _ h => nomatch h) ?_
    intro spelling t hmem htake
    obtain ⟨s, hs, -⟩ := spelling?_of_mem_marks hmem
    rw [htake]
    exact ⟨ne_endOfInput_of_spelling? hs, spells_of_mem_marks hmem⟩
  have hwords : ∀ u m, matchWord valid keywords cs (matchMarks valid cs none) = some (u, m) →
      u ≠ .endOfInput ∧ u.Spells (cs.take m) := of_matchWord hmarks fun _ h => h
  have hcomment {t : Terminal} (ht : t = .lineComment ∨ t = .blockComment) : t ≠ .endOfInput := by
    rintro rfl
    simp at ht
  unfold outside
  refine of_matchComment ?_ fun _ _ ht h => ⟨hcomment ht, h⟩
  split
  · split
    · exact of_matchTable hwords fun e he =>
        ⟨(isFree_literals e he).1, (isFree_literals e he).2.spells _⟩
    · exact hwords
  · exact hwords

/-! ### The next lexeme -/

section Inside

/-- A match at the start of a text that is no comment. -/
def FitsHere (cs : List Char) (t : Terminal) (n : Nat) : Prop :=
  t ≠ .endOfInput ∧ ¬ (t = .lineComment ∨ t = .blockComment) ∧ t.Spells (cs.take n)

/-- A comment after the blanks at the start of a text. -/
def FitsAhead (cs : List Char) (t : Terminal) (n : Nat) : Prop :=
  (t = .lineComment ∨ t = .blockComment) ∧
    t.Spells ((cs.dropWhile isBlank).take (n - (cs.takeWhile isBlank).length))

theorem IsFree.fitsHere (h : IsFree t) (ht : t ≠ .endOfInput) (n : Nat) : FitsHere cs t n :=
  ⟨ht, not_or.2 h.2.2, h.spells _⟩

theorem fitsHere_mark (hmem : (word, t) ∈ marks) (htake : cs.take word.length = word) :
    FitsHere cs t word.length := by
  obtain ⟨s, hs, -⟩ := spelling?_of_mem_marks hmem
  refine ⟨ne_endOfInput_of_spelling? hs, ?_, by rw [htake]; exact spells_of_mem_marks hmem⟩
  rintro (rfl | rfl) <;> cases hs

theorem begins_cut (hbefore : gap <+: cs) (hgap : IsGap gap) {kind : Option Terminal}
    (hkind : ∀ t ∈ kind, t ≠ .endOfInput ∧ t.Spells ((cs.drop gap.length).take n)) :
    (cut gap (cs.drop gap.length) kind n).1.Begins (cut gap (cs.drop gap.length) kind n).2 cs where
  spelled := ⟨fun t ht => (hkind t ht).2, hgap⟩
  source := by
    rw [cut, List.append_assoc, List.take_append_drop]
    exact List.prefix_iff_eq_append.1 hbefore
  last hlast := absurd rfl (hkind _ hlast).1

theorem begins_cut_inside (h : FitsHere cs t n ∨ FitsAhead cs t n) :
    let gap := if t = .lineComment || t = .blockComment then cs.takeWhile isBlank else []
    let found := cut gap (cs.drop gap.length) (some t) (n - gap.length)
    found.1.Begins found.2 cs := by
  intro gap found
  obtain ⟨hend, hplain, hspells⟩ | ⟨hcomment, hspells⟩ := h
  · have hgap : gap = [] := if_neg (by simpa using hplain)
    refine begins_cut ?_ ?_ ?_
    all_goals rw [hgap]
    · exact List.nil_prefix
    · exact isGap_nil
    · rintro u ⟨⟩
      exact ⟨hend, hspells⟩
  · have hgap : gap = cs.takeWhile isBlank := if_pos (by simpa using hcomment)
    have hahead : cs.drop (cs.takeWhile isBlank).length = cs.dropWhile isBlank := by
      have hsplit := List.takeWhile_append_dropWhile (p := isBlank) (l := cs)
      calc cs.drop (cs.takeWhile isBlank).length
          = (cs.takeWhile isBlank ++ cs.dropWhile isBlank).drop (cs.takeWhile isBlank).length := by
            rw [hsplit]
        _ = cs.dropWhile isBlank := List.drop_left
    refine begins_cut ?_ ?_ ?_
    all_goals rw [hgap]
    · exact List.takeWhile_prefix _
    · exact isGap_takeWhile cs
    · rintro u ⟨⟩
      refine ⟨?_, by rwa [hahead]⟩
      rintro rfl
      simp at hcomment

/-- Of a comment ahead and a match here the one that reaches further is taken. -/
theorem of_quoted {comment quoted : Match} {found : Terminal × Nat} {blanks : Nat}
    (h : (match comment, quoted with
      | some (t, n), some (_, m) => if m < blanks + n then some (t, blanks + n) else quoted
      | some (t, n), none => some (t, blanks + n)
      | none, _ => quoted) = some found)
    (hquoted : ∀ t n, quoted = some (t, n) → FitsHere cs t n)
    (hcomment : ∀ t n, comment = some (t, n) → FitsAhead cs t (blanks + n)) :
    FitsHere cs found.1 found.2 ∨ FitsAhead cs found.1 found.2 := by
  cases comment with
  | none => exact Or.inl (hquoted _ _ h)
  | some ahead =>
      have hahead := hcomment ahead.1 ahead.2 rfl
      cases quoted with
      | none =>
          cases h
          exact Or.inr hahead
      | some here =>
          dsimp only at h
          split at h
          · cases h
            exact Or.inr hahead
          · exact Or.inl (hquoted _ _ h)

theorem begins_inside {found : Lexeme × List Char} (h : inside valid cs = some found) :
    found.1.Begins found.2 cs := by
  have hcontents : ∀ t n, matchTable contents valid cs (matchMarks
      ⟨valid.bits &&& contentTerminals.bits⟩ cs none) = some (t, n) → FitsHere cs t n :=
    of_matchTable (of_matchMarks (fun _ _ h => nomatch h) fun _ _ => fitsHere_mark)
      fun e he => (isFree_contents e he).2.fitsHere (isFree_contents e he).1 _
  have hcomment : ∀ t n, matchComment (cs.dropWhile isBlank) none = some (t, n) →
      FitsAhead cs t ((cs.takeWhile isBlank).length + n) := by
    refine of_matchComment (fun _ _ h => nomatch h) fun t n ht hspells => ⟨ht, ?_⟩
    rwa [Nat.add_sub_cancel_left]
  unfold inside at h
  dsimp only at h
  split at h
  · next t n hbest =>
    cases h
    have hmatch : FitsHere cs t n ∨ FitsAhead cs t n := by
      split at hbest
      · refine of_quoted hbest ?_ hcomment
        split
        · exact of_longer (of_matchMarks hcontents fun _ _ => fitsHere_mark)
            fun _ => IsFree.fitsHere (by decide) (by decide) _
        · exact hcontents
      · exact Or.inl (hcontents t n hbest)
    exact begins_cut_inside hmatch
  · cases h

end Inside

theorem gapOf_prefix (atStart : Bool) (cs : List Char) : gapOf atStart cs <+: cs := by
  unfold gapOf
  split
  · split
    · exact List.cons_prefix_cons.2 ⟨rfl, List.takeWhile_prefix _⟩
    · exact List.takeWhile_prefix _
  · exact List.nil_prefix

/-- The next lexeme has the text that its terminal asks for, and is cut off the text. -/
theorem begins_next (valid : TerminalSet) (lost atStart : Bool) (cs : List Char) :
    (next valid lost atStart cs).1.Begins (next valid lost atStart cs).2 cs := by
  have hprefix := gapOf_prefix atStart cs
  have hgap := isGap_gapOf atStart cs
  have hoff {valid keywords : TerminalSet} {t : Terminal} {n : Nat}
      (h : outside valid keywords (cs.drop (gapOf atStart cs).length) = some (t, n)) :
      let found := cut (gapOf atStart cs) (cs.drop (gapOf atStart cs).length) (some t) n
      found.1.Begins found.2 cs := by
    refine begins_cut hprefix hgap fun u hu => ?_
    cases hu
    exact spells_outside t n h
  unfold next
  dsimp only
  split
  · next found hcontent =>
    split at hcontent
    · exact begins_inside hcontent
    · cases hcontent
  · split
    · next hbody =>
      refine ⟨⟨fun t ht => ?_, hgap⟩, ?_, fun _ => rfl⟩
      · cases ht
        exact IsFree.spells (by decide) _
      · have hall := List.prefix_iff_eq_append.1 hprefix
        rw [hbody] at hall
        exact (List.append_nil _).trans hall
    · split
      · next t n hmatch => exact hoff hmatch
      · split
        · next t n hmatch => exact hoff hmatch
        · exact begins_cut hprefix hgap nofun

end Syntax.Lexeme

end EndpointAtlas
