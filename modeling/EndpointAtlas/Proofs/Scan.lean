import EndpointAtlas.Files.Scan
import EndpointAtlas.Proofs.FileTree
import EndpointAtlas.Proofs.PathComponents
import Mathlib.Data.List.Nodup
import Mathlib.Data.List.Sort

/-!
# The source files below a directory

A walk goes from a directory into the directories below it and hands over what it comes to in an order
of its own. Whatever the order, the paths of the sources among that, sorted, are the ones listed.
-/

namespace EndpointAtlas

def Entry.isFile : Entry → Bool
  | .file _ => true
  | _ => false

namespace FileTree

variable {t : FileTree} {top p : Place} {e : Entry} {extensions : List String} {root : String}

/-! ### What a walk comes to -/

/-- What stands where a walk from `top` can come to: it goes into directories and follows no links. -/
inductive Reaches (t : FileTree) (top : Place) : Place → Entry → Prop
  | start : t.isDirectory top → Reaches t top [] .directory
  | enter {p : Place} {name : String} {e : Entry} : Reaches t top p .directory →
      t.get? (top ++ (p ++ [name])) = some e → Reaches t top (p ++ [name]) e

/-- A walk comes to all that stands below the directory it starts at. -/
theorem reaches_iff (htop : t.isDirectory top) : t.Reaches top p e ↔ t.get? (top ++ p) = some e := by
  constructor
  · intro h
    cases h with
    | start h => rwa [List.append_nil, ← isDirectory_iff]
    | enter _ hentry => exact hentry
  · intro hentry
    -- From the end: the parent of what stands in a tree is a directory, which the walk has come to.
    induction p using List.reverseRecOn generalizing e with
    | nil =>
        rw [List.append_nil, isDirectory_iff.1 htop] at hentry
        cases hentry
        exact .start htop
    | append_singleton p name ih =>
        have hparent := isDirectory_dropLast_of_get? hentry
        rw [← List.append_assoc, List.dropLast_concat, isDirectory_iff] at hparent
        exact .enter (ih hparent) hentry

/-- The entries a walk from `top` hands over. It may begin with `top` itself. -/
structure IsWalk (t : FileTree) (top : Place) (emitted : List (Place × Entry)) : Prop where
  nodup : emitted.Nodup
  below : ∀ p e, p ≠ [] → ((p, e) ∈ emitted ↔ t.Reaches top p e)
  start : ∀ e, ([], e) ∈ emitted → e = .directory

/-! ### The files below a directory -/

theorem below?_eq_some_iff {q : Place} : below? top q = some p ↔ q = top ++ p := by
  induction top generalizing q with
  | nil => simp [below?]
  | cons n top ih =>
      cases q with
      | nil => simp [below?]
      | cons m q =>
          rw [below?]
          by_cases h : n = m
          · simp [h, ih]
          · simp [h, Ne.symm h]

/-- Everything in the tree that stands at or below a directory, with its place from there on. -/
def entriesBelow (t : FileTree) (top : Place) : List (Place × Entry) :=
  t.entries.toList.filterMap fun x => (below? top x.1).map fun p => (p, x.2)

theorem mem_entriesBelow_iff :
    (p, e) ∈ t.entriesBelow top ↔ t.entries.get? (top ++ p) = some e := by
  rw [entriesBelow, List.mem_filterMap, SortedMap.get?_eq_some_iff]
  constructor
  · rintro ⟨⟨q, e'⟩, hmem, hbelow⟩
    obtain ⟨p', hp', heq⟩ := Option.map_eq_some_iff.1 hbelow
    cases heq
    rwa [← below?_eq_some_iff.1 hp']
  · intro hmem
    exact ⟨_, hmem, by rw [below?_eq_some_iff.2 rfl, Option.map_some]⟩

theorem nodup_entriesBelow (t : FileTree) (top : Place) :
    ((t.entriesBelow top).map (·.1)).Nodup := by
  rw [entriesBelow, List.map_filterMap, List.Nodup, List.pairwise_filterMap]
  refine t.entries.sorted.imp ?_
  intro x y hlt p hp q hq heq
  simp only [Option.map_map, Function.comp_def, Option.map_eq_some_iff, exists_eq_right] at hp hq
  rw [below?_eq_some_iff.1 hp, below?_eq_some_iff.1 hq, heq] at hlt
  exact Std.lt_irrefl hlt

/-- Every directory has a walk, and handing the same over in another order is a walk as well. -/
theorem isWalk_of_perm {emitted : List (Place × Entry)} (htop : t.isDirectory top)
    (hperm : emitted.Perm (t.entriesBelow top)) : t.IsWalk top emitted := by
  refine ⟨hperm.nodup_iff.2 (List.Nodup.of_map _ (nodup_entriesBelow t top)), ?_, ?_⟩
  · intro p e hp
    rw [hperm.mem_iff, mem_entriesBelow_iff, reaches_iff htop, get?, entryIn,
      if_neg (by simp [hp])]
  · intro e h
    have hentry := mem_entriesBelow_iff.1 (hperm.mem_iff.1 h)
    rw [List.append_nil] at hentry
    have hne := (t.parents top (SortedMap.mem_keys_iff.2 ⟨e, hentry⟩)).1
    rw [isDirectory_iff, get?, entryIn, if_neg (by simp [hne]), hentry] at htop
    exact Option.some.inj htop

theorem filesBelow_eq (t : FileTree) (top : Place) :
    t.filesBelow top =
      ((t.entriesBelow top).filter fun x => x.2.isFile && !x.1.isEmpty).map (·.1) := by
  rw [filesBelow, entriesBelow, List.filter_filterMap, List.map_filterMap]
  apply List.filterMap_congr
  rintro ⟨q, e⟩ -
  cases e <;> cases below? top q with
  | none => rfl
  | some p => cases p <;> rfl

theorem mem_filesBelow_iff :
    p ∈ t.filesBelow top ↔ p ≠ [] ∧ ∃ content, t.get? (top ++ p) = some (.file content) := by
  rw [filesBelow_eq, List.mem_map]
  constructor
  · rintro ⟨⟨q, e⟩, hmem, rfl⟩
    obtain ⟨hmem, hkind⟩ := List.mem_filter.1 hmem
    cases e with
    | file content =>
        have hq : q ≠ [] := by simpa [Entry.isFile] using hkind
        rw [get?, entryIn, if_neg (by simp [hq])]
        exact ⟨hq, content, mem_entriesBelow_iff.1 hmem⟩
    | directory => cases hkind
    | link target => cases hkind
  · rintro ⟨hp, content, hentry⟩
    rw [get?, entryIn, if_neg (by simp [hp])] at hentry
    refine ⟨(p, .file content), List.mem_filter.2 ⟨mem_entriesBelow_iff.2 hentry, ?_⟩, rfl⟩
    simpa [Entry.isFile] using hp

theorem nodup_filesBelow (t : FileTree) (top : Place) : (t.filesBelow top).Nodup := by
  rw [filesBelow_eq]
  exact (nodup_entriesBelow t top).sublist (List.filter_sublist.map _)

/-! ### Sorting places -/

theorem pairwise_selectSources {found : List Place} (hnodup : found.Nodup) :
    (selectSources extensions found).Pairwise (· < ·) := by
  have hsorted : (selectSources extensions found).Pairwise fun p q => !decide (q < p) := by
    apply List.pairwise_mergeSort
    · intro p q r hpq hqr
      rw [Bool.not_eq_true', decide_eq_false_iff_not, Std.not_lt] at hpq hqr ⊢
      exact Std.le_trans hpq hqr
    · intro p q
      rw [Bool.or_eq_true, Bool.not_eq_true', Bool.not_eq_true', decide_eq_false_iff_not,
        decide_eq_false_iff_not, Std.not_lt, Std.not_lt]
      exact Std.le_total
  have hdistinct : (selectSources extensions found).Nodup :=
    (List.mergeSort_perm _ _).nodup_iff.2 (hnodup.filter _)
  refine (hsorted.and hdistinct).imp ?_
  rintro p q ⟨hpq, hne⟩
  rw [Bool.not_eq_true', decide_eq_false_iff_not, Std.not_lt] at hpq
  exact Std.lt_of_le_of_ne hpq hne

theorem mem_selectSources_iff {found : List Place} :
    p ∈ selectSources extensions found ↔ p ∈ found ∧ placeHasExtension p extensions := by
  rw [selectSources, (List.mergeSort_perm _ _).mem_iff, List.mem_filter]

/-- The order in which places are found does not matter. -/
theorem selectSources_perm {found found' : List Place} (hnodup : found.Nodup)
    (hperm : found.Perm found') :
    selectSources extensions found = selectSources extensions found' := by
  refine (pairwise_selectSources hnodup).eq_of_mem_iff
    (pairwise_selectSources (hperm.nodup_iff.1 hnodup)) ?_
  intro p
  rw [mem_selectSources_iff, mem_selectSources_iff, hperm.mem_iff]

theorem placeHasExtension_iff :
    placeHasExtension p extensions ↔ ∃ name, p.getLast? = some name ∧ Path.HasForm name extensions := by
  rw [placeHasExtension]
  cases p.getLast? with
  | none => simp
  | some name => simp [Path.nameHasExtension_iff]

/-! ### Sorting paths -/

/-- Whether everything in the tree is called what something in a directory can be called. -/
def Named (t : FileTree) : Prop := ∀ p ∈ t.entries.keys, ∀ name ∈ p, Path.IsName name

instance (t : FileTree) : Decidable t.Named :=
  inferInstanceAs (Decidable (∀ p ∈ t.entries.keys, ∀ name ∈ p, Path.IsName name))

/-- What is made of the entries a walk hands over: the paths of the sources, sorted as paths. -/
def collect (root : String) (extensions : List String) (emitted : List (Place × Entry)) :
    List String :=
  ((emitted.filter (·.2.isFile)).map fun x => x.1.foldl Path.join root)
    |>.filter (Path.hasExtension · extensions)
    |>.mergeSort fun a b => !decide (Path.components b < Path.components a)

theorem foldl_join_ne_empty (hroot : root ≠ "") (hp : ∀ name ∈ p, Path.IsName name) :
    p.foldl Path.join root ≠ "" := by
  induction p generalizing root with
  | nil => exact hroot
  | cons name p ih =>
      rw [List.forall_mem_cons] at hp
      exact ih (Path.join_ne_empty hroot hp.1) hp.2

theorem components_foldl_join (hroot : root ≠ "") (hp : ∀ name ∈ p, Path.IsName name) :
    Path.components (p.foldl Path.join root) = Path.components root ++ p.map .name := by
  induction p generalizing root with
  | nil => simp
  | cons name p ih =>
      rw [List.forall_mem_cons] at hp
      rw [List.foldl_cons, ih (Path.join_ne_empty hroot hp.1) hp.2, Path.components_join hroot hp.1,
        List.append_assoc, List.singleton_append, List.map_cons]

/-- Paths below one directory are in the order of their places. -/
theorem components_foldl_join_lt_iff {q : Place} (hroot : root ≠ "")
    (hp : ∀ name ∈ p, Path.IsName name) (hq : ∀ name ∈ q, Path.IsName name) :
    Path.components (p.foldl Path.join root) < Path.components (q.foldl Path.join root) ↔ p < q := by
  rw [components_foldl_join hroot hp, components_foldl_join hroot hq,
    Path.Component.append_lt_append_iff, Path.Component.map_name_lt_iff]

theorem hasExtension_foldl_join (hroot : root ≠ "") (hne : p ≠ [])
    (hp : ∀ name ∈ p, Path.IsName name) :
    Path.hasExtension (p.foldl Path.join root) extensions = placeHasExtension p extensions := by
  obtain ⟨before, name, rfl⟩ := List.eq_nil_or_concat' p |>.resolve_left hne
  have hbefore : ∀ n ∈ before, Path.IsName n := fun n hn => hp n (List.mem_append_left _ hn)
  have hname : Path.IsName name := hp name (by simp)
  rw [List.foldl_append, List.foldl_cons, List.foldl_nil,
    Path.hasExtension_join (foldl_join_ne_empty hroot hbefore) hname, placeHasExtension,
    List.getLast?_concat]

theorem Named.isName_of_mem_filesBelow (hnamed : t.Named) (hp : p ∈ t.filesBelow top) :
    ∀ name ∈ p, Path.IsName name := by
  obtain ⟨hne, content, hentry⟩ := mem_filesBelow_iff.1 hp
  rw [get?, entryIn, if_neg (by simp [hne])] at hentry
  intro name hname
  exact hnamed _ (SortedMap.mem_keys_iff.2 ⟨_, hentry⟩) name (List.mem_append_right _ hname)

/-- The files among the entries handed over are those below the directory. -/
theorem IsWalk.files_perm {emitted : List (Place × Entry)} (hwalk : t.IsWalk top emitted)
    (htop : t.isDirectory top) :
    ((emitted.filter (·.2.isFile)).map (·.1)).Perm (t.filesBelow top) := by
  rw [filesBelow_eq]
  refine ((List.perm_ext_iff_of_nodup (hwalk.nodup.filter _)
    ((List.Nodup.of_map _ (nodup_entriesBelow t top)).filter _)).2 ?_).map _
  rintro ⟨p, e⟩
  rw [List.mem_filter, List.mem_filter, mem_entriesBelow_iff]
  by_cases hp : p = []
  · subst hp
    constructor
    · rintro ⟨hmem, hfile⟩
      rw [hwalk.start e hmem] at hfile
      cases hfile
    · simp
  · rw [hwalk.below p e hp, reaches_iff htop, get?, entryIn, if_neg (by simp [hp])]
    simp [hp]

/-- Sorting the paths a walk leads to is listing the places below. -/
theorem IsWalk.collect_eq {emitted : List (Place × Entry)} (hwalk : t.IsWalk top emitted)
    (htop : t.isDirectory top) (hnamed : t.Named) (hroot : root ≠ "") :
    collect root extensions emitted =
      (selectSources extensions (t.filesBelow top)).map fun p => p.foldl Path.join root := by
  have hperm := hwalk.files_perm htop
  have hfound : ((emitted.filter (·.2.isFile)).map fun x =>
      x.1.foldl Path.join root) =
      ((emitted.filter (·.2.isFile)).map (·.1)).map fun p =>
        p.foldl Path.join root := by
    rw [List.map_map]
    rfl
  -- Selecting and sorting paths is selecting and sorting the places that they are made from.
  rw [collect, hfound]
  generalize ((emitted.filter (·.2.isFile)).map (·.1)) = found at hperm
  have hnames {p : Place} (hp : p ∈ found) : ∀ name ∈ p, Path.IsName name :=
    hnamed.isName_of_mem_filesBelow (hperm.mem_iff.1 hp)
  have hselect : (found.map fun p => p.foldl Path.join root).filter
      (Path.hasExtension · extensions) =
        (found.filter (placeHasExtension · extensions)).map fun p => p.foldl Path.join root := by
    rw [List.filter_map]
    congr 1
    apply List.filter_congr
    intro p hp
    exact hasExtension_foldl_join hroot (mem_filesBelow_iff.1 (hperm.mem_iff.1 hp)).1 (hnames hp)
  rw [hselect, ← selectSources_perm (hperm.nodup_iff.2 (nodup_filesBelow t top)) hperm,
    selectSources]
  symm
  apply List.map_mergeSort
  intro p hp q hq
  congr 1
  exact decide_eq_decide.2 (components_foldl_join_lt_iff hroot
    (hnames (List.mem_of_mem_filter hq)) (hnames (List.mem_of_mem_filter hp))).symm

/-! ### The listing -/

/-- Whether a walk from `top` comes to a file at `p` that is called like a source. -/
def IsSource (t : FileTree) (top : Place) (extensions : List String) (p : Place) : Prop :=
  (∃ content, t.Reaches top p (.file content)) ∧
    ∃ name, p.getLast? = some name ∧ Path.HasForm name extensions

theorem mem_sources_iff (htop : t.isDirectory top) :
    p ∈ selectSources extensions (t.filesBelow top) ↔ t.IsSource top extensions p := by
  rw [mem_selectSources_iff, placeHasExtension_iff, mem_filesBelow_iff, IsSource]
  simp only [reaches_iff htop]
  constructor
  · rintro ⟨⟨-, hfile⟩, hname⟩
    exact ⟨hfile, hname⟩
  · rintro ⟨hfile, name, hname, hform⟩
    refine ⟨⟨?_, hfile⟩, name, hname, hform⟩
    rintro rfl
    cases hname

theorem scan_of_place {current : Place} (hplace : t.place current root = .ok top)
    (htop : t.isDirectory top) : t.scan current root extensions =
      (selectSources extensions (t.filesBelow top)).map fun p => p.foldl Path.join root := by
  rw [scan, hplace]
  exact if_pos htop

theorem root_ne_empty_of_place {current : Place} (hplace : t.place current root = .ok top) :
    root ≠ "" := by
  rintro rfl
  cases hplace

theorem scan_eq_nil {current : Place}
    (h : ∀ top, t.place current root = .ok top → ¬ t.isDirectory top) :
    t.scan current root extensions = [] := by
  rw [scan]
  split
  · next top hplace => exact if_neg (h top hplace)
  · rfl

theorem scan_of_find_ne_directory {current : Place}
    (hfind : t.find current root ≠ .ok .directory) : t.scan current root extensions = [] := by
  apply scan_eq_nil
  intro top hplace htop
  apply hfind
  rw [find, hplace]
  dsimp only
  rw [isDirectory_iff.1 htop]

/-- A root that leads to no directory lists nothing. Below a directory each source is listed once, in
the order of the components of the paths, and the same list comes of every walk. -/
theorem scan_lists_sources (hnamed : t.Named) (current : Place) (root : String)
    (extensions : List String) :
    (t.find current root ≠ .ok .directory → t.scan current root extensions = []) ∧
    ∀ top, t.place current root = .ok top → t.isDirectory top →
      (∃ places : List Place, places.Nodup ∧ (∀ p, p ∈ places ↔ t.IsSource top extensions p) ∧
        t.scan current root extensions = places.map fun p => p.foldl Path.join root) ∧
      (t.scan current root extensions).Pairwise
        (fun a b => Path.components a < Path.components b) ∧
      ∀ emitted, t.IsWalk top emitted →
        collect root extensions emitted = t.scan current root extensions := by
  refine ⟨scan_of_find_ne_directory, ?_⟩
  intro top hplace htop
  have hroot := root_ne_empty_of_place hplace
  have hascending : (selectSources extensions (t.filesBelow top)).Pairwise (· < ·) :=
    pairwise_selectSources (nodup_filesBelow t top)
  have hnames {p : Place} (hp : p ∈ selectSources extensions (t.filesBelow top)) :
      ∀ name ∈ p, Path.IsName name :=
    hnamed.isName_of_mem_filesBelow (mem_selectSources_iff.1 hp).1
  rw [scan_of_place hplace htop]
  refine ⟨⟨_, ?_, fun p => mem_sources_iff htop, rfl⟩, ?_, ?_⟩
  · refine hascending.imp ?_
    rintro p q hlt rfl
    exact Std.lt_irrefl hlt
  · refine List.pairwise_map.2 (hascending.imp_of_mem ?_)
    intro p q hp hq hlt
    exact (components_foldl_join_lt_iff hroot (hnames hp) (hnames hq)).2 hlt
  · intro emitted hwalk
    exact hwalk.collect_eq htop hnamed hroot

/-- The root is a link. Names sort before what continues them, a link is not gone into, and a name with
nothing before its dot is no source. -/
theorem scan_lists_sources_linked_root :
    let t := FileTree.empty
      |>.plant ["src", "a b", "X.java"] (.file [])
      |>.plant ["src", "a-b", ".java"] (.file [])
      |>.plant ["src", "a.java"] (.file [])
      |>.plant ["src", "a", "X.java"] (.file [])
      |>.plant ["src", "a", "up"] (.link "..")
      |>.plant ["at"] (.link "src")
    let emitted : List (Place × Entry) := [(["a.java"], .file []), (["a-b"], .directory),
      (["a b"], .directory), (["a b", "X.java"], .file []), (["a"], .directory),
      (["a", "up"], .link ".."), (["a", "X.java"], .file []), (["a-b", ".java"], .file []),
      ([], .directory)]
    t.Named ∧ t.place [] "at" = .ok ["src"] ∧ t.isDirectory ["src"] ∧ t.IsWalk ["src"] emitted ∧
      collect "at" ["java"] emitted = ["at/a/X.java", "at/a b/X.java", "at/a.java"] := by
  intro t emitted
  have hnamed : t.Named := by decide
  have hplace : t.place [] "at" = .ok ["src"] := by decide
  have htop : t.isDirectory ["src"] := by decide
  have hwalk : t.IsWalk ["src"] emitted := isWalk_of_perm htop (by decide)
  refine ⟨hnamed, hplace, htop, hwalk, ?_⟩
  rw [((scan_lists_sources hnamed [] "at" ["java"]).2 _ hplace htop).2.2 emitted hwalk,
    scan_of_place hplace htop, selectSources, List.mergeSort_of_pairwise (by decide)]
  decide

end FileTree

end EndpointAtlas
