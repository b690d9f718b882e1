import EndpointAtlas.Proofs.Leniency
import EndpointAtlas.Proofs.NormalText
import EndpointAtlas.Proofs.SoundRounds
import EndpointAtlas.Proofs.TypeLexemes

/-!
# Layouts of one type

Where a type without annotations and comments is written in two ways, with other blanks between the
same tokens, the two are printed alike if and only if the same bounds stand right after their question
marks. Between any other two tokens the printer puts a space or none whatever blanks are there: next to
a mark they do not count, and two words cannot do without.
-/

namespace EndpointAtlas

open Text Grammar Syntax

namespace Syntax.Lexeme

/-- A lexeme apart from the blanks before it. -/
def token (l : Lexeme) : Option Terminal × List Char := (l.kind, l.text)

def isTypeWord (l : Lexeme) : Bool := l.kind.any Terminal.isTypeWord

/-- Whether `ls` writes the tokens of `ms`, with white space of its own before each of them. Two words
are kept apart, or else they would be one. -/
structure IsLayout (ls ms : List Lexeme) : Prop where
  tokens : ls.map token = ms.map token
  blanks : ∀ l ∈ ls, ∀ c ∈ l.gap, isWhitespace c
  apart : ls.IsChain fun a b => a.isTypeWord → b.isTypeWord → b.gap ≠ []

-- The blanks of a lexeme are looked at with `List.all`, not with the instance for all characters.
instance (ls ms : List Lexeme) : Decidable (IsLayout ls ms) :=
  decidable_of_iff (ls.map token = ms.map token ∧ (∀ l ∈ ls, l.gap.all isWhitespace) ∧
      ls.IsChain fun a b => a.isTypeWord → b.isTypeWord → b.gap ≠ [])
    ⟨fun ⟨htokens, hblanks, hapart⟩ => ⟨htokens, fun l hl => List.all_eq_true.1 (hblanks l hl), hapart⟩,
      fun ⟨htokens, hblanks, hapart⟩ => ⟨htokens, fun l hl => List.all_eq_true.2 (hblanks l hl), hapart⟩⟩

/-- Whether `b` is a bound that stands right after its question mark `a`. -/
def isTight (a b : Lexeme) : Bool := a.kind == some .question && b.isTypeWord && b.gap.isEmpty

/-- For each two lexemes side by side, whether they are a question mark and a bound right after it. -/
def tightBounds (ls : List Lexeme) : List Bool := ls.zipWith isTight ls.tail

variable {a b l m : Lexeme} {ls ms : List Lexeme} {t u : Terminal}

theorem isTypeWord_eq (h : l.kind = some t) : l.isTypeWord = t.isTypeWord := by
  rw [isTypeWord, h, Option.any_some]

theorem isTight_eq (ha : a.kind = some t) (hb : b.kind = some u) :
    isTight a b = (t == .question && u.isTypeWord && b.gap.isEmpty) := by
  rw [isTight, ha, isTypeWord_eq hb]
  rfl

theorem tightBounds_cons_cons (a b : Lexeme) (ls : List Lexeme) :
    tightBounds (a :: b :: ls) = isTight a b :: tightBounds (b :: ls) := rfl

theorem IsLayout.eq_nil (h : IsLayout ls []) : ls = [] := List.map_eq_nil_iff.1 h.tokens

theorem IsLayout.exists_cons (h : IsLayout ls (m :: ms)) : ∃ l rest, ls = l :: rest := by
  obtain ⟨l, rest, hls, -⟩ := List.map_eq_cons_iff.1 h.tokens
  exact ⟨l, rest, hls⟩

/-- The layout of a token, with the layout of those after it. -/
theorem IsLayout.cons (h : IsLayout (l :: ls) (m :: ms)) :
    l.kind = m.kind ∧ l.text = m.text ∧ (∀ c ∈ l.gap, isWhitespace c) ∧ IsLayout ls ms := by
  obtain ⟨htoken, hrest⟩ := List.cons.inj h.tokens
  obtain ⟨hkind, htext⟩ := Prod.mk.inj htoken
  have hblanks := List.forall_mem_cons.1 h.blanks
  exact ⟨hkind, htext, hblanks.1, hrest, hblanks.2, h.apart.tail⟩

theorem IsLayout.gap_ne_nil (h : IsLayout (a :: b :: ls) ms) (ha : a.kind = some t)
    (hb : b.kind = some u) : t.isTypeWord → u.isTypeWord → b.gap ≠ [] := by
  have hapart := (List.isChain_cons_cons.1 h.apart).1
  rwa [isTypeWord_eq ha, isTypeWord_eq hb] at hapart

end Syntax.Lexeme

namespace TypeText

open Syntax.Lexeme

variable {last : Option Char} {blank : Bool} {c l : Char} {cs text rest gap gap' : List Char}
  {t u : Terminal} {a a' b : Lexeme} {ls ms : List Lexeme}

/-! ### The characters of a token -/

theorem isMark_eq_false (hc : isIdentifierPart c) : isMark c = false := by
  rw [← Bool.not_eq_true, isMark_iff]
  simp only [List.mem_cons, List.not_mem_nil, or_false]
  rintro (rfl | rfl | rfl | rfl | rfl | rfl) <;> cases hc

theorem exists_of_plainMark (h : t.Spells text) (ht : t.isPlainMark) :
    ∃ c, text = [c] ∧ isMark c ∧ (t.isOpeningMark → isOpening c ∨ c = ',') := by
  simp only [Terminal.isPlainMark, List.contains_eq_mem, List.mem_cons, List.not_mem_nil, or_false,
    decide_eq_true_eq] at ht
  obtain rfl | rfl | rfl | rfl | rfl | rfl := ht
  all_goals exact ⟨_, h.spelled _ rfl, by decide⟩

/-- There is no white space in a token of a type. -/
theorem solid_of_spells (h : t.Spells text) (ht : t.isTypeWord || t.isTypeMark) :
    text ≠ [] ∧ ∀ c ∈ text, isWhitespace c = false := by
  rw [Terminal.isTypeMark, Bool.or_eq_true, Bool.or_eq_true] at ht
  obtain hword | hquestion | hmark := ht
  · obtain ⟨hne, hparts⟩ := h.typeWord hword
    exact ⟨hne, fun c hc => isWhitespace_of_isIdentifierPart (hparts c hc)⟩
  · obtain rfl := eq_of_beq hquestion
    obtain rfl : text = ['?'] := h.spelled _ rfl
    exact ⟨List.cons_ne_nil _ _, List.forall_mem_singleton.2 rfl⟩
  · obtain ⟨c, rfl, hc, -⟩ := exists_of_plainMark h hmark
    exact ⟨List.cons_ne_nil _ _, List.forall_mem_singleton.2 (isWhitespace_of_isMark hc)⟩

/-! ### The space between two tokens -/

/-- Where two tokens meet, blanks make a difference only to a bound after its question mark. -/
theorem spaced_eq_iff (ht : t.Spells text) (hu : u.Spells (c :: cs)) (hmeets : t.Meets u)
    (hgap : t.isTypeWord → u.isTypeWord → gap ≠ [])
    (hgap' : t.isTypeWord → u.isTypeWord → gap' ≠ []) :
    spaced text.getLast? (!gap.isEmpty) c = spaced text.getLast? (!gap'.isEmpty) c ↔
      (t == .question && u.isTypeWord && gap.isEmpty) =
        (t == .question && u.isTypeWord && gap'.isEmpty) := by
  rw [Terminal.Meets, Bool.or_eq_true, Bool.or_eq_true, Bool.and_eq_true, Bool.or_eq_true] at hmeets
  obtain (hopening | hmark) | ⟨hword | hquestion, huword⟩ := hmeets
  · -- The first token is an opening mark or a comma.
    obtain ⟨hplain, hne⟩ := Terminal.isPlainMark_of_isOpeningMark hopening
    obtain ⟨l, rfl, -, hl⟩ := exists_of_plainMark ht hplain
    rw [List.getLast?_singleton, spaced_opening (hl hopening),
      spaced_opening (hl hopening) (!gap'.isEmpty), beq_false_of_ne hne]
    simp
  · -- The second token is a mark that no space comes before.
    obtain ⟨d, hd, hspace, -⟩ := exists_of_plainMark hu hmark
    obtain ⟨rfl, -⟩ := List.cons.inj hd
    rw [spaced_mark hspace, spaced_mark hspace (!gap'.isEmpty),
      Terminal.isTypeWord_of_isPlainMark hmark]
    simp
  · -- Both tokens are words.
    have hne := List.isEmpty_eq_false_iff.2 (hgap hword huword)
    have hne' := List.isEmpty_eq_false_iff.2 (hgap' hword huword)
    rw [hne, hne']
    simp
  · -- The second token is a bound after its question mark.
    obtain rfl := eq_of_beq hquestion
    obtain rfl : text = ['?'] := ht.spelled _ rfl
    have hc : isIdentifierPart c := (hu.typeWord huword).2 c List.mem_cons_self
    have hspaced (blank : Bool) : spaced (some '?') blank c = blank := by
      simp [spaced, isMark_eq_false hc, isOpening]
    rw [List.getLast?_singleton, hspaced, hspaced, huword]
    simp

/-! ### One token after the other -/

/-- A token is printed after the space before it, and what comes next is printed after the token. -/
theorem exists_layout_token (hsolid : ∀ d ∈ c :: cs, isWhitespace d = false) :
    ∃ printed, ∀ last gap rest, (∀ d ∈ gap, isWhitespace d) →
      layout last false (gap ++ c :: cs ++ rest) =
        (if spaced last (!gap.isEmpty) c then [' '] else []) ++
          c :: (printed ++ layout (c :: cs).getLast? false rest) := by
  rw [List.forall_mem_cons] at hsolid
  obtain ⟨hc, hcs⟩ := hsolid
  have hrest : ∃ printed, ∀ rest, layout (some c) false (cs ++ rest) =
      printed ++ layout (c :: cs).getLast? false rest := by
    obtain rfl | ⟨init, l, rfl⟩ := List.eq_nil_or_concat' cs
    · exact ⟨[], fun _ => rfl⟩
    · obtain ⟨before, hbefore⟩ := exists_layout_append (some c) false init (hcs l (by simp))
      refine ⟨before ++ [l], fun rest => ?_⟩
      rw [List.append_assoc, List.singleton_append, hbefore, ← List.cons_append,
        List.getLast?_concat, List.append_assoc, List.singleton_append]
  obtain ⟨printed, hprinted⟩ := hrest
  refine ⟨printed, fun last gap rest hgap => ?_⟩
  rw [List.append_assoc, layout_blanks hgap, Bool.false_or, List.cons_append, ← hprinted]
  split
  · next hspaced => exact layout_cons_spaced hc hspaced
  · next hspaced =>
    rw [Bool.not_eq_true] at hspaced
    exact layout_cons_joined hc hspaced

theorem space_append_inj {p q : Prop} [Decidable p] [Decidable q] (hc : c ≠ ' ') :
    (if p then [' '] else []) ++ c :: cs = (if q then [' '] else []) ++ c :: rest ↔
      (p ↔ q) ∧ cs = rest := by
  by_cases hp : p <;> by_cases hq : q <;> simp [hp, hq, hc, Ne.symm hc]

/-! ### All tokens of a type -/

/-- Whatever layout it has, a token is printed in the same way but for the space before it. -/
theorem exists_layout_source {first : Lexeme} (hfirst : first.IsTypeToken) :
    ∃ c cs printed, first.text = c :: cs ∧ c ≠ ' ' ∧
      ∀ last b ls tokens, IsLayout (b :: ls) (first :: tokens) →
        layout last false (source (b :: ls)) =
          (if spaced last (!b.gap.isEmpty) c then [' '] else []) ++
            c :: (printed ++ layout first.text.getLast? false (source ls)) := by
  obtain ⟨t, -, htype, hspells⟩ := hfirst
  obtain ⟨hne, hsolid⟩ := solid_of_spells hspells htype
  obtain ⟨c, cs, htext⟩ := List.exists_cons_of_ne_nil hne
  rw [htext] at hsolid ⊢
  obtain ⟨printed, hprinted⟩ := exists_layout_token hsolid
  refine ⟨c, cs, printed, rfl, ?_, fun last b ls tokens hlayout => ?_⟩
  · rintro rfl
    cases hsolid _ List.mem_cons_self
  · obtain ⟨-, hsame, hblanks, -⟩ := hlayout.cons
    rw [source, List.flatMap_cons, hsame, htext]
    exact hprinted _ _ _ hblanks

/-- After the first token two layouts of the others are printed alike if the same bounds are tight. -/
theorem layout_source_eq_iff {first : Lexeme} {tokens : List Lexeme}
    (htokens : ∀ l ∈ first :: tokens, l.IsTypeToken)
    (hmeets : (first :: tokens).IsChain fun a b => ∀ t ∈ a.kind, ∀ u ∈ b.kind, t.Meets u)
    (hls : IsLayout (a :: ls) (first :: tokens)) (hms : IsLayout (a' :: ms) (first :: tokens)) :
    layout first.text.getLast? false (source ls) = layout first.text.getLast? false (source ms) ↔
      tightBounds (a :: ls) = tightBounds (a' :: ms) := by
  induction tokens generalizing first a a' ls ms with
  | nil =>
      obtain ⟨-, -, -, hrest⟩ := hls.cons
      obtain ⟨-, -, -, hrest'⟩ := hms.cons
      rw [hrest.eq_nil, hrest'.eq_nil]
      exact iff_of_true rfl rfl
  | cons second tokens ih =>
      obtain ⟨hkind, -, -, hrest⟩ := hls.cons
      obtain ⟨hkind', -, -, hrest'⟩ := hms.cons
      obtain ⟨b, ls, rfl⟩ := hrest.exists_cons
      obtain ⟨b', ms, rfl⟩ := hrest'.exists_cons
      obtain ⟨hkindb, -⟩ := hrest.cons
      obtain ⟨hkindb', -⟩ := hrest'.cons
      rw [List.isChain_cons_cons] at hmeets
      rw [List.forall_mem_cons] at htokens
      obtain ⟨⟨t, ht, -, hspells⟩, htokens⟩ := htokens
      have hsecond := htokens second List.mem_cons_self
      obtain ⟨c, cs, printed, htext, hc, hprinted⟩ := exists_layout_source hsecond
      obtain ⟨u, hu, -, hspells'⟩ := hsecond
      rw [ht] at hkind hkind'
      rw [hu] at hkindb hkindb'
      rw [htext] at hspells'
      have hspaced := spaced_eq_iff hspells hspells' (hmeets.1 t ht u hu)
        (hls.gap_ne_nil hkind hkindb) (hms.gap_ne_nil hkind' hkindb')
      rw [hprinted _ _ _ _ hrest, hprinted _ _ _ _ hrest', space_append_inj hc, ← Bool.eq_iff_iff,
        hspaced, List.append_cancel_left_eq, tightBounds_cons_cons, tightBounds_cons_cons,
        isTight_eq hkind hkindb, isTight_eq hkind' hkindb', List.cons.injEq]
      exact and_congr_right fun _ => ih htokens hmeets.2 hrest hrest'

/-- The text of a type without annotations and comments is made up of its tokens, and two layouts of
these are printed alike if and only if the same bounds stand right after their question marks. -/
theorem print_layouts_eq_iff {x : Symbol} {t : Tree} (h : t.IsDerived)
    (hsymbol : t.symbol? = some x) (hx : x.isType) (hbare : t.IsBare) :
    (∀ label, Node.sourceOf (Node.ofTree label t) = source t.lexemes) ∧
    ∀ ls ms, IsLayout ls t.lexemes → IsLayout ms t.lexemes →
      (print (source ls) = print (source ms) ↔ tightBounds ls = tightBounds ms) := by
  refine ⟨fun label => Node.sourceOf_ofTree label t, fun ls ms hls hms => ?_⟩
  obtain ⟨hspelled, ⟨first, hfirst, -⟩, -, hmeets⟩ := h.runs hsymbol hx hbare
  obtain ⟨tokens, htokens⟩ := List.head?_eq_some_iff.1 hfirst
  rw [htokens] at hspelled hmeets hls hms
  obtain ⟨a, ls, rfl⟩ := hls.exists_cons
  obtain ⟨a', ms, rfl⟩ := hms.exists_cons
  -- No space is printed before the first token.
  obtain ⟨c, cs, printed, -, hc, hprinted⟩ :=
    exists_layout_source (hspelled first List.mem_cons_self)
  rw [print, print, hprinted _ _ _ _ hls, hprinted _ _ _ _ hms, space_append_inj hc,
    List.append_cancel_left_eq, layout_source_eq_iff hspelled hmeets hls hms]
  exact and_iff_right Iff.rfl

end TypeText

/-! ### Types in a text -/

namespace Syntax.Tree

variable {t u : Tree} {children : List (Label × Tree)}

mutual

/-- All trees in a tree. -/
def inner : Tree → List Tree
  | .node _ _ children | .skipped _ _ children => innerOf children
  | .token _ _ _ | .missing _ | .stray _ _ => []

def innerOf : List (Label × Tree) → List Tree
  | [] => []
  | child :: rest => innerOfChild child ++ innerOf rest

def innerOfChild : Label × Tree → List Tree
  | (_, t) => t :: t.inner

end

theorem mem_innerOf_iff : u ∈ innerOf children ↔
    ∃ child ∈ children, u = child.2 ∨ u ∈ child.2.inner := by
  induction children with
  | nil => simp [innerOf]
  | cons child children ih =>
      obtain ⟨label, t⟩ := child
      simp [innerOf, innerOfChild, ih, or_assoc]

theorem IsDerived.isDerived_of_mem_inner (h : t.IsDerived) (hu : u ∈ t.inner) : u.IsDerived := by
  induction h using IsDerived.induction with
  | token => cases hu
  | node _ _ _ _ hchildren ih =>
      obtain ⟨child, hchild, rfl | hu⟩ := mem_innerOf_iff.1 hu
      · exact hchildren child hchild
      · exact ih child hchild hu

theorem IsWhole.isDerived_of_mem_inner (h : t.IsWhole) (hclean : t.hasRepair = false)
    (hu : u ∈ t.inner) : u.IsDerived := by
  cases h with
  | skipped hrepaired => exact absurd hrepaired (Bool.eq_false_iff.1 hclean)
  | node hsummary htop =>
      obtain ⟨child, hchild, hu⟩ := mem_innerOf_iff.1 hu
      have hderived : child.2.IsDerived :=
        ⟨(htop child hchild).sound, hasRepair_of_mem hsummary hclean child hchild⟩
      obtain rfl | hu := hu
      · exact hderived
      · exact hderived.isDerived_of_mem_inner hu

/-- The generic types in a tree, each before those in it. -/
def genericTypes (t : Tree) : List Tree :=
  t.inner.filter fun u => u.symbol? == some (.construct .genericType)

theorem of_mem_genericTypes (ht : t.IsWhole) (hclean : t.hasRepair = false) (hu : u ∈ t.genericTypes) :
    u.IsDerived ∧ u.symbol? = some (.construct .genericType) := by
  obtain ⟨hinner, hsymbol⟩ := List.mem_filter.1 hu
  exact ⟨ht.isDerived_of_mem_inner hclean hinner, eq_of_beq hsymbol⟩

end Syntax.Tree

namespace TypeText

/-- The tokens of `List<? extends Dto>` with a line break in them. -/
def brokenList : List Lexeme :=
  [⟨[], "List".toList, some .identifier⟩, ⟨[' '], ['<'], some .less⟩, ⟨[], ['?'], some .question⟩,
    ⟨['\n', ' '], "extends".toList, some .extendsWord⟩, ⟨[' '], "Dto".toList, some .identifier⟩,
    ⟨[], ['>'], some .greater⟩]

set_option maxRecDepth 100000 in
theorem parse_lists :
    let text := "class C { List<?extends Dto> a() {} List<? extends Dto> b() {} }".toList
    let tree := Syntax.parse text
    SourceUnit.ofText false text = .ok ⟨none, [⟨"C", .classType, [],
        [⟨"a", "List<?extends Dto>", [], []⟩, ⟨"b", "List<? extends Dto>", [], []⟩], []⟩]⟩ ∧
      tree.hasRepair = false ∧
      ∃ t ∈ tree.genericTypes[0]?, ∃ u ∈ tree.genericTypes[1]?, t.IsBare ∧ u.IsBare ∧
        Lexeme.IsLayout t.lexemes u.lexemes ∧ Lexeme.IsLayout u.lexemes u.lexemes ∧
        Lexeme.IsLayout brokenList u.lexemes ∧
        Lexeme.tightBounds brokenList = Lexeme.tightBounds u.lexemes ∧
        print (Lexeme.source t.lexemes) = "List<?extends Dto>".toList ∧
        print (Lexeme.source u.lexemes) = "List<? extends Dto>".toList := by
  decide +kernel

theorem print_layouts_eq_iff_bounded :
    let text := "class C { List<?extends Dto> a() {} List<? extends Dto> b() {} }".toList
    ∃ u ∈ (Syntax.parse text).genericTypes, u.IsDerived ∧
      u.symbol? = some (.construct .genericType) ∧ u.IsBare ∧
      Lexeme.IsLayout brokenList u.lexemes ∧ Lexeme.IsLayout u.lexemes u.lexemes ∧
      print (Lexeme.source brokenList) = print (Lexeme.source u.lexemes) := by
  obtain ⟨-, hclean, -, -, u, hu, -, hbare, -, hself, hbroken, hsame, -⟩ := parse_lists
  have hmem := List.mem_of_getElem? hu
  obtain ⟨hderived, hsymbol⟩ := Tree.of_mem_genericTypes (Syntax.isWhole_parse _) hclean hmem
  obtain ⟨-, hprinted⟩ := print_layouts_eq_iff hderived hsymbol rfl hbare
  exact ⟨u, hmem, hderived, hsymbol, hbare, hbroken, hself, (hprinted _ _ hbroken hself).2 hsame⟩

/-- A space is printed between a question mark and its bound only if there is white space. -/
theorem print_tight_bound :
    let text := "class C { List<?extends Dto> a() {} List<? extends Dto> b() {} }".toList
    SourceUnit.ofText false text = .ok ⟨none, [⟨"C", .classType, [],
        [⟨"a", "List<?extends Dto>", [], []⟩, ⟨"b", "List<? extends Dto>", [], []⟩], []⟩]⟩ ∧
      ∃ t ∈ (Syntax.parse text).genericTypes, ∃ u ∈ (Syntax.parse text).genericTypes,
        t.IsDerived ∧ t.symbol? = some (.construct .genericType) ∧ t.IsBare ∧
        u.IsDerived ∧ u.symbol? = some (.construct .genericType) ∧ u.IsBare ∧
        Lexeme.IsLayout t.lexemes u.lexemes ∧
        print (Lexeme.source t.lexemes) = "List<?extends Dto>".toList ∧
        print (Lexeme.source u.lexemes) = "List<? extends Dto>".toList ∧
        print (Lexeme.source t.lexemes) ≠ print (Lexeme.source u.lexemes) := by
  obtain ⟨hread, hclean, t, ht, u, hu, hbare, hbare', hlayout, -, -, -, hprint, hprint'⟩ := parse_lists
  have hmem := List.mem_of_getElem? ht
  have hmem' := List.mem_of_getElem? hu
  obtain ⟨hderived, hsymbol⟩ := Tree.of_mem_genericTypes (Syntax.isWhole_parse _) hclean hmem
  obtain ⟨hderived', hsymbol'⟩ := Tree.of_mem_genericTypes (Syntax.isWhole_parse _) hclean hmem'
  refine ⟨hread, t, hmem, u, hmem', hderived, hsymbol, hbare, hderived', hsymbol', hbare', hlayout,
    hprint, hprint', ?_⟩
  rw [hprint, hprint']
  decide

end TypeText

end EndpointAtlas
