import EndpointAtlas.Settings
import EndpointAtlas.Proofs.Scan
import EndpointAtlas.Proofs.Trimming
import Mathlib.Data.Finset.Max

/-!
# The extensions asked for

What a text asks for is what it leaves without the white space at its ends and then without the dots
before it, if that is anything. A list of texts stands for the set of these, or for `java` where there are
none. White space that stood behind the dots comes to stand at the front, and cleaning what is left once
more takes it away.
-/

namespace EndpointAtlas

namespace Settings

open Text

variable {c : Char} {raw x : String} {texts texts' : List String}

/-! ### What a text leaves -/

def StartsBlank (cs : List Char) : Prop := ∃ c, isWhitespace c ∧ cs.head? = some c

def EndsBlank (cs : List Char) : Prop := ∃ c, isWhitespace c ∧ cs.getLast? = some c

/-- Whether `x` is left of a text without the white space around it and then without the dots before
it. -/
def Leaves (raw x : String) : Prop :=
  ∃ before dots after : List Char, raw.toList = before ++ (dots ++ x.toList) ++ after ∧
    (∀ c ∈ before, isWhitespace c) ∧ (∀ c ∈ after, isWhitespace c) ∧
    ¬ StartsBlank (dots ++ x.toList) ∧ ¬ EndsBlank (dots ++ x.toList) ∧
    (∀ c ∈ dots, c = '.') ∧ x.toList.head? ≠ some '.'

theorem leaves_cleanExtension (raw : String) : Leaves raw (cleanExtension raw) := by
  obtain ⟨before, after, hraw, hbefore, hafter⟩ := exists_append_trimEnds isWhitespace raw.toList
  have hsplit : (trimEnds isWhitespace raw.toList).takeWhile (· == '.') ++
      (cleanExtension raw).toList = trimEnds isWhitespace raw.toList := by
    rw [cleanExtension, String.toList_ofList, List.takeWhile_append_dropWhile]
  refine ⟨before, (trimEnds isWhitespace raw.toList).takeWhile (· == '.'), after, ?_, hbefore, hafter,
    ?_, ?_, fun c hc => by simpa using List.mem_takeWhile_imp hc, ?_⟩
  · rw [hsplit]
    exact hraw
  · rw [hsplit]
    exact fun ⟨c, hc, hhead⟩ => head?_trimEnds_ne hc hhead
  · rw [hsplit]
    exact fun ⟨c, hc, hlast⟩ => getLast?_trimEnds_ne hc hlast
  · rw [cleanExtension, String.toList_ofList]
    intro hhead
    have hdot := List.head?_dropWhile_not (· == '.') (trimEnds isWhitespace raw.toList)
    rw [hhead] at hdot
    exact absurd hdot (by simp)

namespace Leaves

/-- A text leaves nothing else. -/
theorem cleanExtension_eq (h : Leaves raw x) : cleanExtension raw = x := by
  obtain ⟨before, dots, after, hraw, hbefore, hafter, hstart, hend, hdots, hhead⟩ := h
  have hkept : trimEnds isWhitespace raw.toList = dots ++ x.toList := by
    rw [hraw]
    exact trimEnds_append_append hbefore hafter (fun c hc hhead => hstart ⟨c, hc, hhead⟩)
      fun c hc hlast => hend ⟨c, hc, hlast⟩
  rw [cleanExtension, hkept, List.dropWhile_append_of_pos fun c hc => beq_iff_eq.2 (hdots c hc),
    dropWhile_of_head?_ne fun c hc => eq_of_beq hc ▸ hhead, String.ofList_toList]

theorem head?_ne (h : Leaves raw x) : x.toList.head? ≠ some '.' := by
  obtain ⟨-, -, -, -, -, -, -, -, -, hhead⟩ := h
  exact hhead

theorem not_endsBlank (h : Leaves raw x) : ¬ EndsBlank x.toList := by
  obtain ⟨-, dots, -, -, -, -, -, hend, -, -⟩ := h
  rintro ⟨c, hc, hlast⟩
  refine hend ⟨c, hc, ?_⟩
  rw [List.getLast?_append, hlast, Option.some_or]

end Leaves

theorem leaves_iff : Leaves raw x ↔ cleanExtension raw = x :=
  ⟨Leaves.cleanExtension_eq, fun h => h ▸ leaves_cleanExtension raw⟩

/-- What is clean is left as it is. -/
theorem leaves_self (hdot : x.toList.head? ≠ some '.') (hstart : ¬ StartsBlank x.toList)
    (hend : ¬ EndsBlank x.toList) : Leaves x x :=
  ⟨[], [], [], by simp, by simp, by simp, hstart, hend, by simp, hdot⟩

/-! ### White space behind dots -/

/-- Whether white space stands behind the dots before an extension. -/
def IsGapped (raw : String) : Prop :=
  ∃ before dots blank after, raw.toList = before ++ (dots ++ blank :: after) ∧
    (∀ c ∈ before, isWhitespace c) ∧ dots ≠ [] ∧ (∀ c ∈ dots, c = '.') ∧ isWhitespace blank ∧
    ∃ c ∈ after, isWhitespace c = false

/-- White space comes to stand at the front only where it has stood behind dots. -/
theorem Leaves.exists_dots (h : Leaves raw x) (hstart : StartsBlank x.toList) :
    ∃ before dots blank kept after, x.toList = blank :: kept ∧ isWhitespace blank ∧
      raw.toList = before ++ (dots ++ blank :: kept) ++ after ∧ (∀ c ∈ before, isWhitespace c) ∧
      dots ≠ [] ∧ (∀ c ∈ dots, c = '.') ∧ ∃ c ∈ kept, isWhitespace c = false := by
  obtain ⟨before, dots, after, hraw, hbefore, -, hfirst, hend, hdots, -⟩ := h
  obtain ⟨blank, hblank, hhead⟩ := hstart
  obtain ⟨kept, hx⟩ := List.head?_eq_some_iff.1 hhead
  rw [hx] at hraw hfirst hend
  refine ⟨before, dots, blank, kept, after, hx, hblank, hraw, hbefore, ?_, hdots, ?_⟩
  · rintro rfl
    exact hfirst ⟨blank, hblank, rfl⟩
  · cases hkept : kept.getLast? with
    | none =>
        rw [List.getLast?_eq_none_iff.1 hkept] at hend
        exact absurd ⟨blank, hblank, List.getLast?_concat⟩ hend
    | some c =>
        refine ⟨c, List.mem_of_getLast? hkept, Bool.eq_false_iff.2 fun hc => hend ⟨c, hc, ?_⟩⟩
        rw [List.getLast?_append, List.getLast?_cons, hkept]
        rfl

/-- What stood behind the dots is left, without the white space at the end. -/
theorem IsGapped.exists_leaves (h : IsGapped raw) : ∃ x, Leaves raw x ∧ StartsBlank x.toList := by
  obtain ⟨before, dots, blank, after, hraw, hbefore, hne, hdots, hblank, c, hmem, hc⟩ := h
  have hkept : after.rdropWhile isWhitespace ≠ [] := by
    intro hnil
    rw [List.rdropWhile_eq_nil_iff.1 hnil c hmem] at hc
    cases hc
  have hlast := List.rdropWhile_last_not isWhitespace after hkept
  refine ⟨.ofList (blank :: after.rdropWhile isWhitespace),
    ⟨before, dots, after.rtakeWhile isWhitespace, ?_, hbefore, fun c hc => List.mem_rtakeWhile_imp hc,
      ?_, ?_, hdots, ?_⟩, blank, hblank, by rw [String.toList_ofList, List.head?_cons]⟩
  · rw [String.toList_ofList, hraw, List.append_assoc, List.append_assoc, List.cons_append,
      List.rdropWhile_append_rtakeWhile]
  · rintro ⟨d, hd, hhead⟩
    rw [List.head?_append_of_ne_nil _ hne] at hhead
    rw [hdots d (List.mem_of_head? hhead)] at hd
    exact absurd hd (by decide)
  · rintro ⟨d, hd, hsome⟩
    rw [String.toList_ofList, List.getLast?_append, List.getLast?_cons,
      List.getLast?_eq_some_getLast hkept, Option.getD_some, Option.some_or] at hsome
    cases hsome
    exact hlast hd
  · rw [String.toList_ofList, List.head?_cons]
    rintro ⟨⟩
    exact absurd hblank (by decide)

theorem isGapped_iff : IsGapped raw ↔ StartsBlank (cleanExtension raw).toList := by
  constructor
  · intro hgapped
    obtain ⟨x, hleft, hstart⟩ := hgapped.exists_leaves
    rwa [hleft.cleanExtension_eq]
  · intro hstart
    obtain ⟨before, dots, blank, kept, after, -, hblank, hraw, hbefore, hne, hdots, c, hmem, hc⟩ :=
      (leaves_cleanExtension raw).exists_dots hstart
    refine ⟨before, dots, blank, kept ++ after, ?_, hbefore, hne, hdots, hblank, c,
      List.mem_append_left _ hmem, hc⟩
    rw [hraw, List.append_assoc, List.append_assoc, List.cons_append]

/-! ### The set asked for -/

/-- Whether a list of texts asks for an extension. -/
def Asks (texts : List String) (x : String) : Prop := x ≠ "" ∧ ∃ raw ∈ texts, Leaves raw x

theorem Asks.mono (hsub : texts ⊆ texts') (h : Asks texts x) : Asks texts' x := by
  obtain ⟨hne, raw, hraw, hleft⟩ := h
  exact ⟨hne, raw, hsub hraw, hleft⟩

theorem mem_normalizeExtensions_iff :
    x ∈ normalizeExtensions texts ↔ Asks texts x ∨ x = defaultExtension ∧ ∀ y, ¬ Asks texts y := by
  have hasked (y : String) :
      y ∈ (SortedSet.ofList ((texts.map cleanExtension).filter fun e => !e.isEmpty)).toList ↔
        Asks texts y := by
    rw [SortedSet.mem_ofList, List.mem_filter, List.mem_map, Asks]
    simp only [leaves_iff, Bool.not_eq_true', String.isEmpty_eq_false_iff, and_comm, Ne]
  rw [normalizeExtensions]
  split
  · next hnil =>
    rw [hnil] at hasked
    have hnone (y : String) : ¬ Asks texts y := by simp [← hasked]
    simp [hnone]
  · next hsome =>
    rw [hasked]
    obtain ⟨y, hy⟩ := List.exists_mem_of_ne_nil _ hsome
    have hne : ¬ ∀ y, ¬ Asks texts y := fun hnone => hnone y ((hasked y).1 hy)
    simp [hne]

theorem mem_normalizeExtensions_iff_asks {y : String} (h : Asks texts y) :
    x ∈ normalizeExtensions texts ↔ Asks texts x := by
  rw [mem_normalizeExtensions_iff]
  exact or_iff_left fun hdefault => hdefault.2 y h

theorem normalizeExtensions_ne_nil (texts : List String) : normalizeExtensions texts ≠ [] := by
  intro hnil
  have hmem (x : String) : ¬ (Asks texts x ∨ x = defaultExtension ∧ ∀ y, ¬ Asks texts y) := by
    rw [← mem_normalizeExtensions_iff, hnil]
    exact List.not_mem_nil
  exact hmem defaultExtension (Or.inr ⟨rfl, fun y hy => hmem y (Or.inl hy)⟩)

theorem pairwise_normalizeExtensions (texts : List String) :
    (normalizeExtensions texts).Pairwise (· < ·) := by
  rw [normalizeExtensions]
  split
  · exact List.pairwise_singleton _ _
  · exact SortedSet.pairwise_toList _

theorem normalizeExtensions_congr (h : ∀ raw, raw ∈ texts ↔ raw ∈ texts') :
    normalizeExtensions texts = normalizeExtensions texts' := by
  refine (pairwise_normalizeExtensions texts).eq_of_mem_iff (pairwise_normalizeExtensions texts') ?_
  intro x
  simp only [mem_normalizeExtensions_iff, Asks, h]

/-! ### Cleaning once more -/

theorem clean_of_mem (h : x ∈ normalizeExtensions texts) :
    x ≠ "" ∧ x.toList.head? ≠ some '.' ∧ ¬ EndsBlank x.toList := by
  obtain ⟨hne, raw, -, hleft⟩ | ⟨rfl, -⟩ := mem_normalizeExtensions_iff.1 h
  · exact ⟨hne, hleft.head?_ne, hleft.not_endsBlank⟩
  · refine ⟨by decide, by decide, ?_⟩
    rintro ⟨c, hc, ⟨⟩⟩
    exact absurd hc (by decide)

theorem not_startsBlank_defaultExtension : ¬ StartsBlank defaultExtension.toList := by
  rintro ⟨c, hc, ⟨⟩⟩
  exact absurd hc (by decide)

theorem exists_startsBlank_iff :
    (∃ x ∈ normalizeExtensions texts, StartsBlank x.toList) ↔ ∃ raw ∈ texts, IsGapped raw := by
  constructor
  · rintro ⟨x, hx, hstart⟩
    obtain ⟨-, raw, hraw, hleft⟩ | ⟨rfl, -⟩ := mem_normalizeExtensions_iff.1 hx
    · refine ⟨raw, hraw, isGapped_iff.2 ?_⟩
      rwa [hleft.cleanExtension_eq]
    · exact absurd hstart not_startsBlank_defaultExtension
  · rintro ⟨raw, hraw, hgapped⟩
    have hstart := isGapped_iff.1 hgapped
    refine ⟨cleanExtension raw, mem_normalizeExtensions_iff.2 (Or.inl ⟨?_, raw, hraw, ?_⟩), hstart⟩
    · rintro hempty
      obtain ⟨c, -, hhead⟩ := hstart
      rw [hempty] at hhead
      cases hhead
    · exact leaves_cleanExtension raw

theorem normalizeExtensions_again
    (hstart : ∀ x ∈ normalizeExtensions texts, ¬ StartsBlank x.toList) :
    normalizeExtensions (normalizeExtensions texts) = normalizeExtensions texts := by
  have hself : ∀ x ∈ normalizeExtensions texts, Leaves x x := by
    intro x hx
    obtain ⟨-, hdot, hend⟩ := clean_of_mem hx
    exact leaves_self hdot (hstart x hx) hend
  have hasked (x : String) : Asks (normalizeExtensions texts) x ↔ x ∈ normalizeExtensions texts := by
    constructor
    · rintro ⟨-, raw, hraw, hleft⟩
      rwa [← hleft.cleanExtension_eq, (hself raw hraw).cleanExtension_eq]
    · intro hx
      exact ⟨(clean_of_mem hx).1, x, hx, hself x hx⟩
  obtain ⟨y, hy⟩ := List.exists_mem_of_ne_nil _ (normalizeExtensions_ne_nil texts)
  refine (pairwise_normalizeExtensions _).eq_of_mem_iff (pairwise_normalizeExtensions texts) ?_
  intro x
  rw [mem_normalizeExtensions_iff_asks ((hasked y).2 hy), hasked]

/-- Where a second pass changes nothing, what starts with white space was left by something longer that
starts with white space. -/
theorem exists_longer
    (hagain : normalizeExtensions (normalizeExtensions texts) = normalizeExtensions texts)
    (hx : x ∈ normalizeExtensions texts) (hstart : StartsBlank x.toList) :
    ∃ y ∈ normalizeExtensions texts, StartsBlank y.toList ∧ x.length < y.length := by
  rw [← hagain] at hx
  obtain ⟨-, y, hy, hleft⟩ | ⟨rfl, -⟩ := mem_normalizeExtensions_iff.1 hx
  · obtain ⟨before, dots, blank, kept, after, hkept, -, htext, hbefore, hne, hdots, -⟩ :=
      hleft.exists_dots hstart
    refine ⟨y, hy, ?_, ?_⟩
    · cases before with
      | nil =>
          obtain ⟨dot, dots, rfl⟩ := List.exists_cons_of_ne_nil hne
          rw [hdots dot List.mem_cons_self] at htext
          exact absurd (by rw [htext]; rfl) (clean_of_mem hy).2.1
      | cons first before =>
          rw [htext]
          exact ⟨first, hbefore first List.mem_cons_self, rfl⟩
    · have hlength := List.length_pos_iff.2 hne
      rw [← String.length_toList, ← String.length_toList, htext, hkept]
      simp only [List.length_append, List.length_cons]
      omega
  · exact absurd hstart not_startsBlank_defaultExtension

theorem not_startsBlank_of_again
    (hagain : normalizeExtensions (normalizeExtensions texts) = normalizeExtensions texts) :
    ∀ x ∈ normalizeExtensions texts, ¬ StartsBlank x.toList := by
  classical
  intro x hx hstart
  let blanks := (normalizeExtensions texts).toFinset.filter fun y => StartsBlank y.toList
  have hmem (y : String) : y ∈ blanks ↔ y ∈ normalizeExtensions texts ∧ StartsBlank y.toList := by
    rw [Finset.mem_filter, List.mem_toFinset]
  obtain ⟨longest, hlongest, hmax⟩ :=
    blanks.exists_max_image String.length ⟨x, (hmem x).2 ⟨hx, hstart⟩⟩
  obtain ⟨hlongest, hblank⟩ := (hmem longest).1 hlongest
  obtain ⟨y, hy, hyBlank, hlonger⟩ := exists_longer hagain hlongest hblank
  exact absurd (hmax y ((hmem y).2 ⟨hy, hyBlank⟩)) (Nat.not_le.2 hlonger)

/-- No extension is empty, starts with a dot or ends with white space. None starts with white space, and
none is changed by a second pass, just where no white space stands behind the dots of a text. -/
theorem normalizeExtensions_normal_iff (texts : List String) :
    (∀ x ∈ normalizeExtensions texts,
      x ≠ "" ∧ x.toList.head? ≠ some '.' ∧ ¬ EndsBlank x.toList) ∧
    ((∀ x ∈ normalizeExtensions texts, ¬ StartsBlank x.toList) ↔ ∀ raw ∈ texts, ¬ IsGapped raw) ∧
    (normalizeExtensions (normalizeExtensions texts) = normalizeExtensions texts ↔
      ∀ raw ∈ texts, ¬ IsGapped raw) := by
  have hstart : (∀ x ∈ normalizeExtensions texts, ¬ StartsBlank x.toList) ↔
      ∀ raw ∈ texts, ¬ IsGapped raw := by
    have hgapped : (¬ ∃ x ∈ normalizeExtensions texts, StartsBlank x.toList) ↔
        ¬ ∃ raw ∈ texts, IsGapped raw := not_congr exists_startsBlank_iff
    simpa only [not_exists, not_and] using hgapped
  refine ⟨fun x hx => clean_of_mem hx, hstart, ?_⟩
  rw [← hstart]
  exact ⟨not_startsBlank_of_again, normalizeExtensions_again⟩

/-- The blank behind the dot stays, until the next pass. -/
theorem normalizeExtensions_gap :
    StartsBlank " java".toList ∧ normalizeExtensions [". java"] = [" java"] ∧
      normalizeExtensions (normalizeExtensions [". java"]) = ["java"] :=
  ⟨⟨' ', by decide, by decide⟩, by decide, by decide⟩

end Settings

namespace FileTree

open Settings

variable {t : FileTree} {found : List Place} {extensions extensions' : List String}

/-! ### More extensions find more files -/

theorem placeHasExtension_mono {p : Place} (hsub : extensions ⊆ extensions')
    (hp : placeHasExtension p extensions) : placeHasExtension p extensions' := by
  rw [placeHasExtension_iff] at hp ⊢
  obtain ⟨name, hname, stem, ext, hform, hstem, hext, hmem⟩ := hp
  exact ⟨name, hname, stem, ext, hform, hstem, hext, hsub hmem⟩

theorem selectSources_sublist (hsub : extensions ⊆ extensions') (hnodup : found.Nodup) :
    (selectSources extensions found).Sublist (selectSources extensions' found) := by
  have hascending : (selectSources extensions found).Pairwise (· < ·) := pairwise_selectSources hnodup
  refine List.sublist_of_subperm_of_pairwise (List.subperm_of_subset hascending.nodup ?_) hascending
    (pairwise_selectSources hnodup)
  intro p hp
  rw [mem_selectSources_iff] at hp ⊢
  exact ⟨hp.1, placeHasExtension_mono hsub hp.2⟩

theorem scan_sublist (t : FileTree) (current : Place) (root : String) (hsub : extensions ⊆ extensions') :
    (t.scan current root extensions).Sublist (t.scan current root extensions') := by
  rw [scan, scan]
  split
  · split
    · exact (selectSources_sublist hsub (nodup_filesBelow t _)).map _
    · exact List.Sublist.refl _
  · exact List.Sublist.refl _

/-- What is looked for is the set of the extensions that are asked for, or `java` where there are none. So
texts with the same members find the same files, and where an extension is asked for, more texts lose no
file. -/
theorem scan_normalizeExtensions :
    (∀ texts, normalizeExtensions texts ≠ [] ∧ (normalizeExtensions texts).Pairwise (· < ·) ∧
      ∀ x, x ∈ normalizeExtensions texts ↔ Asks texts x ∨ x = "java" ∧ ∀ y, ¬ Asks texts y) ∧
    (∀ texts texts', (∀ raw, raw ∈ texts ↔ raw ∈ texts') →
      normalizeExtensions texts = normalizeExtensions texts' ∧
      ∀ (t : FileTree) (current : Place) (root : String),
        t.scan current root (normalizeExtensions texts) =
          t.scan current root (normalizeExtensions texts')) ∧
    ∀ texts texts', (∃ x, Asks texts x) → texts ⊆ texts' →
      ∀ (t : FileTree) (current : Place) (root : String),
        (t.scan current root (normalizeExtensions texts)).Sublist
          (t.scan current root (normalizeExtensions texts')) := by
  refine ⟨fun texts => ⟨normalizeExtensions_ne_nil texts, pairwise_normalizeExtensions texts,
    fun x => mem_normalizeExtensions_iff⟩, ?_, ?_⟩
  · intro texts texts' hsame
    have heq := normalizeExtensions_congr hsame
    exact ⟨heq, fun t current root => by rw [heq]⟩
  · rintro texts texts' ⟨y, hy⟩ hsub t current root
    refine scan_sublist t current root ?_
    intro x hx
    rw [mem_normalizeExtensions_iff_asks (hy.mono hsub)]
    exact ((mem_normalizeExtensions_iff_asks hy).1 hx).mono hsub

/-- With nothing asked for there is something to lose. -/
example : normalizeExtensions [" "] = ["java"] ∧ normalizeExtensions [" ", "kt"] = ["kt"] := by decide

/-- Asking for one more extension, also with the same one written in two ways. -/
theorem scan_normalizeExtensions_more :
    let t := FileTree.empty
      |>.plant ["src", "A.java"] (.file [])
      |>.plant ["src", "B.kt"] (.file [])
    Asks [" ..java"] "java" ∧
      (t.scan [] "src" (normalizeExtensions [" ..java"])).Sublist
        (t.scan [] "src" (normalizeExtensions [".kt", "java", " ..java"])) := by
  intro t
  have hasked : Asks [" ..java"] "java" :=
    ⟨by decide, " ..java", List.mem_singleton_self _, leaves_iff.2 (by decide)⟩
  exact ⟨hasked, scan_normalizeExtensions.2.2 _ _ ⟨"java", hasked⟩ (by decide) t [] "src"⟩

end FileTree

end EndpointAtlas
