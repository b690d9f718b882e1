import EndpointAtlas.Proofs.Leniency
import EndpointAtlas.Proofs.Rescan
import EndpointAtlas.Proofs.Statistics

/-!
# Files that are left out of the analysis

A source that cannot be read or parsed counts as discovered and as failed, and that is all that comes of
it. Wherever such files stand between the others, the rest of the project is analysed without them in the
order that it has with them.
-/

namespace EndpointAtlas

namespace FileTree

variable {t u : FileTree} {current top p q : Place} {root path : String} {extensions : List String}
  {gone : List Place}

/-! ### A path to a directory -/

section Directories

variable {here : Place} {names : List String}
  (hdirectory : ∀ p, t.isDirectory p → u.isDirectory p)
  (hlink : ∀ p target, t.get? p = some (.link target) → u.get? p = some (.link target))

include hdirectory hlink

/-- On the way to a directory there are directories and links only. -/
theorem walkWith_of_isDirectory {follow follow' : Place → List String → Except Fault Place}
    (hfollow : ∀ start names, follow start names = .ok p → follow' start names = .ok p)
    (hp : t.isDirectory p) (hwalk : walkWith follow t true here names = .ok p) :
    walkWith follow' u true here names = .ok p := by
  induction names generalizing here with
  | nil =>
      rw [walkWith] at hwalk ⊢
      exact hwalk
  | cons name rest ih =>
      obtain ⟨hdir, hstep⟩ := walkWith_cons_iff.1 hwalk
      refine walkWith_cons_iff.2 ⟨hdirectory here hdir, ?_⟩
      cases hstep with
      | stay h => exact .stay (ih h)
      | up h => exact .up (ih h)
      | link hdot hup hentry h => exact .link hdot hup (hlink _ _ hentry) (hfollow _ _ h)
      | down hdot hup hentry hplain h =>
          have hthere : t.isDirectory (here ++ [name]) := by
            cases rest with
            | nil =>
                rw [walkWith] at h
                cases h
                exact hp
            | cons next rest => exact isDirectory_of_walkWith (by simp) h
          exact .down hdot hup (isDirectory_iff.1 (hdirectory _ hthere)) (by simp) (ih h)
      | free hdot hup hnone hrest heq =>
          rw [heq, isDirectory_iff, hnone] at hp
          cases hp

theorem walk_of_isDirectory {links : Nat} (hp : t.isDirectory p)
    (hwalk : t.walk true links here names = .ok p) : u.walk true links here names = .ok p := by
  induction links generalizing here names with
  | zero =>
      refine walkWith_of_isDirectory hdirectory hlink ?_ hp hwalk
      intro _ _ herror
      cases herror
  | succ links ih => exact walkWith_of_isDirectory hdirectory hlink (fun _ _ => ih) hp hwalk

theorem place_of_isDirectory (hp : t.isDirectory p) (hplace : t.place current path = .ok p) :
    u.place current path = .ok p := by
  unfold place follow at hplace ⊢
  by_cases hempty : path.isEmpty
  · rw [if_pos hempty] at hplace
    cases hplace
  · rw [if_neg hempty] at hplace ⊢
    exact walk_of_isDirectory hdirectory hlink hp hplace

end Directories

/-! ### The listing, path by path -/

theorem mem_scan_iff : path ∈ t.scan current root extensions ↔
    ∃ top p, t.place current root = .ok top ∧ p ∈ selectSources extensions (t.filesBelow top) ∧
      path = p.foldl Path.join root := by
  constructor
  · intro hpath
    rw [scan] at hpath
    split at hpath
    · next top hplace =>
      split at hpath
      · obtain ⟨p, hp, rfl⟩ := List.mem_map.1 hpath
        exact ⟨top, p, hplace, hp, rfl⟩
      · cases hpath
    · cases hpath
  · rintro ⟨top, p, hplace, hp, rfl⟩
    obtain ⟨hne, content, hcontent⟩ := mem_filesBelow_iff.1 (mem_selectSources_iff.1 hp).1
    rw [scan_of_place hplace (isDirectory_of_get?_append hcontent hne)]
    exact List.mem_map_of_mem hp

/-- A path of the listing leads to the file that it is listed for. -/
theorem Named.place_of_mem (hnamed : t.Named) (hplace : t.place current root = .ok top)
    (hp : p ∈ selectSources extensions (t.filesBelow top)) :
    t.place current (p.foldl Path.join root) = .ok (top ++ p) ∧
      ∃ content, t.get? (top ++ p) = some (.file content) := by
  obtain ⟨hbelow, -⟩ := mem_selectSources_iff.1 hp
  obtain ⟨-, content, hcontent⟩ := mem_filesBelow_iff.1 hbelow
  exact ⟨place_foldl_join hplace (hnamed.isName_of_mem_filesBelow hbelow) hcontent (by simp),
    content, hcontent⟩

theorem Named.foldl_join_inj (hnamed : t.Named) (hplace : t.place current root = .ok top)
    (hp : p ∈ selectSources extensions (t.filesBelow top))
    (hq : q ∈ selectSources extensions (t.filesBelow top))
    (heq : p.foldl Path.join root = q.foldl Path.join root) : p = q := by
  obtain ⟨hleads, -⟩ := hnamed.place_of_mem hplace hp
  rw [heq, (hnamed.place_of_mem hplace hq).1] at hleads
  exact (List.append_cancel_left (Except.ok.inj hleads)).symm

theorem Named.nodup_scan (hnamed : t.Named) (current : Place) (root : String)
    (extensions : List String) : (t.scan current root extensions).Nodup := by
  rw [scan]
  split
  · next top hplace =>
    split
    · refine List.Nodup.map_on (fun p hp q hq => hnamed.foldl_join_inj hplace hp hq) ?_
      refine (pairwise_selectSources (nodup_filesBelow t top)).imp ?_
      rintro p q hlt rfl
      exact Std.lt_irrefl hlt
    · exact .nil
  · exact .nil

/-! ### Files and directories that are added -/

/-- Whether `u` is `t` with other files and directories added. -/
structure Extends (t u : FileTree) : Prop where
  kept : ∀ p e, t.get? p = some e → u.get? p = some e
  link : ∀ p target, u.get? p = some (.link target) → t.get? p = some (.link target)

namespace Extends

theorem grown (h : Extends t u) : Grown t u :=
  ⟨fun p hp => isDirectory_iff.2 (h.kept p _ (isDirectory_iff.1 hp)),
    fun p content hp => ⟨content, h.kept p _ hp⟩, fun p target => ⟨h.link p target, h.kept p _⟩⟩

theorem named (h : Extends t u) (hnamed : u.Named) : t.Named := by
  intro p hp
  obtain ⟨e, hentry⟩ := SortedMap.mem_keys_iff.1 hp
  have hne : p ≠ [] := (t.parents p hp).1
  have hentry' := h.kept p e (by rwa [get?, entryIn, if_neg (by simpa using hne)])
  rw [get?, entryIn, if_neg (by simpa using hne)] at hentry'
  exact hnamed p (SortedMap.mem_keys_iff.2 ⟨e, hentry'⟩)

theorem mem_selectSources (h : Extends t u)
    (hp : p ∈ selectSources extensions (t.filesBelow top)) :
    p ∈ selectSources extensions (u.filesBelow top) := by
  obtain ⟨hbelow, hextension⟩ := mem_selectSources_iff.1 hp
  obtain ⟨hne, content, hcontent⟩ := mem_filesBelow_iff.1 hbelow
  exact mem_selectSources_iff.2
    ⟨mem_filesBelow_iff.2 ⟨hne, content, h.kept _ _ hcontent⟩, hextension⟩

/-- What was listed is listed in the same order, whatever has come between. -/
theorem scan_eq_filter (h : Extends t u) (hnamed : u.Named) :
    t.scan current root extensions =
      (u.scan current root extensions).filter (· ∈ t.scan current root extensions) := by
  by_cases hroot : ∃ top, t.place current root = .ok top ∧ t.isDirectory top
  · obtain ⟨top, hplace, htop⟩ := hroot
    have hplace' := place_grown h.grown hplace
    have hlisted {p : Place} (hp : p ∈ selectSources extensions (u.filesBelow top)) :
        p.foldl Path.join root ∈ t.scan current root extensions ↔
          p ∈ selectSources extensions (t.filesBelow top) := by
      rw [scan_of_place hplace htop, List.mem_map]
      constructor
      · rintro ⟨q, hq, heq⟩
        rwa [hnamed.foldl_join_inj hplace' hp (h.mem_selectSources hq) heq.symm]
      · intro hp'
        exact ⟨p, hp', rfl⟩
    have hselected : selectSources extensions (t.filesBelow top) =
        (selectSources extensions (u.filesBelow top)).filter
          (· ∈ selectSources extensions (t.filesBelow top)) := by
      refine (pairwise_selectSources (nodup_filesBelow t top)).eq_of_mem_iff
        ((pairwise_selectSources (nodup_filesBelow u top)).filter _) ?_
      intro p
      rw [List.mem_filter, decide_eq_true_iff]
      exact ⟨fun hp => ⟨h.mem_selectSources hp, hp⟩, And.right⟩
    rw [scan_of_place hplace' (h.grown.directory top htop), List.filter_map,
      scan_of_place hplace htop]
    congr 1
    refine hselected.trans ?_
    apply List.filter_congr
    intro p hp
    rw [Function.comp_apply, ← scan_of_place hplace htop]
    exact decide_eq_decide.2 (hlisted hp).symm
  · have hempty : t.scan current root extensions = [] :=
      scan_eq_nil fun top hplace htop => hroot ⟨top, hplace, htop⟩
    rw [hempty]
    simp

/-- What was listed has the content that it had. -/
theorem ofFile_eq (h : Extends t u) (hnamed : t.Named) {lenient : Bool}
    (hpath : path ∈ t.scan current root extensions) :
    SourceUnit.ofFile u current lenient path = SourceUnit.ofFile t current lenient path := by
  obtain ⟨top, p, hplace, hp, rfl⟩ := mem_scan_iff.1 hpath
  obtain ⟨hleads, content, hcontent⟩ := hnamed.place_of_mem hplace hp
  have hread : u.read current (p.foldl Path.join root) = t.read current (p.foldl Path.join root) := by
    unfold read find
    rw [place_grown h.grown hleads, hleads]
    simp only [h.kept _ _ hcontent, hcontent]
  unfold SourceUnit.ofFile
  rw [hread]

theorem sources_eq_filter (h : Extends t u) (hnamed : u.Named) (lenient : Bool) :
    Project.sources t current root extensions lenient =
      (Project.sources u current root extensions lenient).filter
        (·.1 ∈ t.scan current root extensions) := by
  have hsame : (t.scan current root extensions).map
      (fun path => (path, SourceUnit.ofFile t current lenient path)) =
      (t.scan current root extensions).map
        (fun path => (path, SourceUnit.ofFile u current lenient path)) := by
    apply List.map_congr_left
    intro path hpath
    rw [h.ofFile_eq (h.named hnamed) hpath]
  rw [Project.sources, Project.sources, hsame, List.filter_map]
  congr 1
  exact h.scan_eq_filter hnamed

end Extends

theorem extends_put {e : Entry} (haccepts : t.accepts p) (hfree : t.get? p = none)
    (hplain : ∀ target, e ≠ .link target) : Extends t (t.put p e) := by
  constructor
  · intro q e' hentry
    have hne : q ≠ p := by
      rintro rfl
      rw [hfree] at hentry
      cases hentry
    rwa [get?_put haccepts, if_neg hne]
  · intro q target hentry
    rw [get?_put haccepts] at hentry
    split at hentry
    · exact absurd (Option.some.inj hentry) (hplain target)
    · exact hentry

/-! ### Files that are removed -/

/-- Whether an entry stays at a place when the files at `gone` are removed. -/
def stays (gone : List Place) (p : Place) (e : Entry) : Bool := !(e.isFile && gone.contains p)

theorem entryIn_filter_stays (entries : SortedMap Place Entry) (gone : List Place) (p : Place) :
    entryIn (entries.filter (stays gone)) p = (entryIn entries p).filter (stays gone p) := by
  rw [entryIn, entryIn]
  split
  · rfl
  · exact SortedMap.get?_filter _ _ _

theorem parents_filter_stays (t : FileTree) (gone : List Place) :
    ∀ p ∈ (t.entries.filter (stays gone)).keys,
      p ≠ [] ∧ entryIn (t.entries.filter (stays gone)) p.dropLast = some .directory := by
  intro p hp
  obtain ⟨e, hentry⟩ := SortedMap.mem_keys_iff.1 hp
  rw [SortedMap.get?_filter, Option.filter_eq_some_iff] at hentry
  obtain ⟨hne, hparent⟩ := t.parents p (SortedMap.mem_keys_iff.2 ⟨e, hentry.1⟩)
  refine ⟨hne, ?_⟩
  rw [entryIn_filter_stays, hparent]
  rfl

/-- The tree without the files at the given places. -/
def without (t : FileTree) (gone : List Place) : FileTree :=
  ⟨t.entries.filter (stays gone), t.parents_filter_stays gone⟩

/-- The tree without the files that paths lead to. -/
def delete (t : FileTree) (current : Place) (paths : List String) : FileTree :=
  t.without (paths.filterMap fun path => (t.place current path).toOption)

theorem get?_without (t : FileTree) (gone : List Place) (p : Place) :
    (t.without gone).get? p = (t.get? p).filter (stays gone p) :=
  entryIn_filter_stays t.entries gone p

theorem extends_without (t : FileTree) (gone : List Place) : Extends (t.without gone) t := by
  constructor
  · intro p e hentry
    rw [get?_without, Option.filter_eq_some_iff] at hentry
    exact hentry.1
  · intro p target hentry
    rw [get?_without, hentry]
    rfl

theorem extends_delete (t : FileTree) (current : Place) (paths : List String) :
    Extends (t.delete current paths) t := extends_without t _

theorem place_without (htop : t.isDirectory top) (hplace : t.place current root = .ok top) :
    (t.without gone).place current root = .ok top := by
  refine place_of_isDirectory ?_ (extends_without t gone).link htop hplace
  intro p hp
  rw [isDirectory_iff] at hp ⊢
  rw [get?_without, hp]
  rfl

section Delete

variable {paths : List String}

theorem get?_delete_of_mem (hpath : path ∈ paths) (hplace : t.place current path = .ok p)
    (content : List UInt8) : (t.delete current paths).get? p ≠ some (.file content) := by
  have hgone : p ∈ paths.filterMap fun path => (t.place current path).toOption :=
    List.mem_filterMap.2 ⟨path, hpath, by rw [hplace]; rfl⟩
  intro hentry
  rw [delete, get?_without, Option.filter_eq_some_iff, stays, List.contains_iff_mem.2 hgone] at hentry
  cases hentry.2

theorem get?_delete_of_notMem {content : List UInt8} (hentry : t.get? p = some (.file content))
    (hkept : ∀ path ∈ paths, t.place current path ≠ .ok p) :
    (t.delete current paths).get? p = some (.file content) := by
  rw [delete, get?_without, hentry, Option.filter_some, if_pos]
  rw [stays, Bool.not_eq_true', Bool.and_eq_false_iff]
  right
  rw [List.contains_eq_mem, decide_eq_false_iff_not, List.mem_filterMap]
  rintro ⟨path, hpath, hplace⟩
  cases hresult : t.place current path with
  | error f =>
      rw [hresult] at hplace
      cases hplace
  | ok q =>
      rw [hresult] at hplace
      cases hplace
      exact hkept path hpath hresult

/-- Deleting listed files takes them out of the listing, and nothing else. -/
theorem mem_scan_delete_iff (hnamed : t.Named)
    (hpaths : ∀ path ∈ paths, path ∈ t.scan current root extensions)
    (hpath : path ∈ t.scan current root extensions) :
    path ∈ (t.delete current paths).scan current root extensions ↔ path ∉ paths := by
  have hextends := t.extends_delete current paths
  obtain ⟨top, p, hplace, hp, rfl⟩ := mem_scan_iff.1 hpath
  obtain ⟨hleads, content, hcontent⟩ := hnamed.place_of_mem hplace hp
  constructor
  · intro hlisted hgone
    obtain ⟨top', q, hplace', hq, heq⟩ := mem_scan_iff.1 hlisted
    cases hplace.symm.trans (place_grown hextends.grown hplace')
    cases hnamed.foldl_join_inj hplace hp (hextends.mem_selectSources hq) heq
    obtain ⟨-, content', hcontent'⟩ := (hextends.named hnamed).place_of_mem hplace' hq
    exact get?_delete_of_mem hgone hleads content' hcontent'
  · intro hkept
    have hne : p ≠ [] := (mem_filesBelow_iff.1 (mem_selectSources_iff.1 hp).1).1
    have htop : t.isDirectory top := isDirectory_of_get?_append hcontent hne
    refine mem_scan_iff.2 ⟨top, p, place_without htop hplace, ?_, rfl⟩
    refine mem_selectSources_iff.2
      ⟨mem_filesBelow_iff.2 ⟨hne, content, ?_⟩, (mem_selectSources_iff.1 hp).2⟩
    apply get?_delete_of_notMem hcontent
    intro path hgone hsame
    obtain ⟨top', q, hplace', hq, rfl⟩ := mem_scan_iff.1 (hpaths path hgone)
    cases hplace.symm.trans hplace'
    rw [(hnamed.place_of_mem hplace hq).1] at hsame
    rw [List.append_cancel_left (Except.ok.inj hsame)] at hgone
    exact hkept hgone

end Delete

end FileTree

namespace Project

variable {t u : FileTree} {current : Place} {root : String} {extensions : List String}
  {lenient : Bool}

section Filter

variable {keep : String × Except SourceFailure SourceUnit → Bool}
  (hsources : sources t current root extensions lenient =
    (sources u current root extensions lenient).filter keep)
  (hfailed : ∀ f ∈ sources u current root extensions lenient, ¬ keep f → f.2.toOption = none)

include hsources hfailed

theorem units_of_filter : units (sources t current root extensions lenient) =
    units (sources u current root extensions lenient) := by
  rw [hsources, units, units, List.filterMap_filter]
  apply List.filterMap_congr
  intro f hf
  by_cases hkeep : keep f
  · rw [if_pos hkeep]
  · rw [if_neg hkeep, hfailed f hf hkeep]

/-- Files that fail add to the two counts of files only. -/
theorem analyze_of_filter :
    let small := (analyze t current root extensions lenient).1
    let large := (analyze u current root extensions lenient).1
    let failed := (sources u current root extensions lenient).countP fun f => !keep f
    large.inventory = small.inventory ∧
      large.statistics =
        { small.statistics with
          filesDiscovered := small.statistics.filesDiscovered + failed
          filesFailed := small.statistics.filesFailed + failed } := by
  intro small large failed
  have hunits := units_of_filter hsources hfailed
  have hdiscovered :
      large.statistics.filesDiscovered = small.statistics.filesDiscovered + failed := by
    change (sources u current root extensions lenient).length =
      (sources t current root extensions lenient).length + failed
    rw [hsources, ← List.countP_eq_length_filter, List.length_eq_countP_add_countP keep]
    congr 1
    apply List.countP_congr
    simp
  have hfailures : large.statistics.filesFailed = small.statistics.filesFailed + failed := by
    dsimp only [small, large, failed]
    rw [filesFailed_analyze, filesFailed_analyze, hsources,
      List.countP_eq_countP_filter_add _ _ keep, List.countP_eq_length_filter (p := fun f => !keep f)]
    congr 1
    apply List.countP_eq_length.2
    intro f hf
    obtain ⟨hmem, hdropped⟩ := List.mem_filter.1 hf
    rw [hfailed f hmem (by simpa using hdropped)]
    rfl
  have hrun : large.inventory = small.inventory ∧ large.statistics =
      { small.statistics with
        filesDiscovered := large.statistics.filesDiscovered
        filesFailed := large.statistics.filesFailed } := by
    dsimp only [small, large]
    rw [analyze, analyze, hunits]
    exact ⟨rfl, rfl⟩
  refine ⟨hrun.1, ?_⟩
  rw [hrun.2, hdiscovered, hfailures]

end Filter

/-- A tree with broken files added is analysed as it was without them. -/
theorem analyze_of_extends (hnamed : u.Named) (hextends : t.Extends u)
    (hbroken : ∀ path ∈ u.scan current root extensions, path ∉ t.scan current root extensions →
      (SourceUnit.ofFile u current lenient path).toOption = none) :
    let small := (analyze t current root extensions lenient).1
    let large := (analyze u current root extensions lenient).1
    let added := (u.scan current root extensions).filter (· ∉ t.scan current root extensions)
    sources t current root extensions lenient =
        (sources u current root extensions lenient).filter (·.1 ∉ added) ∧
      units (sources t current root extensions lenient) =
        units (sources u current root extensions lenient) ∧
      large.inventory = small.inventory ∧
      large.statistics =
        { small.statistics with
          filesDiscovered := small.statistics.filesDiscovered + added.length
          filesFailed := small.statistics.filesFailed + added.length } := by
  intro small large added
  have hsources : sources t current root extensions lenient =
      (sources u current root extensions lenient).filter
        (·.1 ∈ t.scan current root extensions) := hextends.sources_eq_filter hnamed lenient
  have hfailed : ∀ f ∈ sources u current root extensions lenient,
      ¬ decide (f.1 ∈ t.scan current root extensions) → f.2.toOption = none := by
    intro f hf hnew
    obtain ⟨path, hpath, rfl⟩ := List.mem_map.1 hf
    exact hbroken path hpath (by simpa using hnew)
  have hlength : (sources u current root extensions lenient).countP
      (fun f => !decide (f.1 ∈ t.scan current root extensions)) = added.length := by
    rw [sources, List.countP_map, List.countP_eq_length_filter]
    congr 1
    apply List.filter_congr
    simp
  refine ⟨?_, units_of_filter hsources hfailed, ?_⟩
  · refine hsources.trans (List.filter_congr ?_)
    intro f hf
    obtain ⟨path, hpath, rfl⟩ := List.mem_map.1 hf
    simp [added, hpath]
  · rw [← hlength]
    exact analyze_of_filter hsources hfailed

/-- Deleting broken files lowers the two counts of files by their number. -/
theorem analyze_delete (hnamed : t.Named) {gone : List String} (hnodup : gone.Nodup)
    (hgone : ∀ path ∈ gone, path ∈ t.scan current root extensions)
    (hbroken : ∀ path ∈ gone, (SourceUnit.ofFile t current lenient path).toOption = none) :
    let before := (analyze t current root extensions lenient).1
    let after := (analyze (t.delete current gone) current root extensions lenient).1
    sources (t.delete current gone) current root extensions lenient =
        (sources t current root extensions lenient).filter (·.1 ∉ gone) ∧
      units (sources (t.delete current gone) current root extensions lenient) =
        units (sources t current root extensions lenient) ∧
      before.inventory = after.inventory ∧
      before.statistics =
        { after.statistics with
          filesDiscovered := after.statistics.filesDiscovered + gone.length
          filesFailed := after.statistics.filesFailed + gone.length } := by
  intro before after
  let left := (t.delete current gone).scan current root extensions
  have hleft {path : String} (hpath : path ∈ t.scan current root extensions) :
      path ∉ left ↔ path ∈ gone := by
    rw [FileTree.mem_scan_delete_iff hnamed hgone hpath, not_not]
  have hmem (path : String) :
      path ∈ (t.scan current root extensions).filter (· ∉ left) ↔ path ∈ gone := by
    rw [List.mem_filter, decide_eq_true_iff]
    constructor
    · rintro ⟨hpath, hlost⟩
      exact (hleft hpath).1 hlost
    · intro hpath
      exact ⟨hgone path hpath, (hleft (hgone path hpath)).2 hpath⟩
  have hperm : ((t.scan current root extensions).filter (· ∉ left)).Perm gone :=
    (List.perm_ext_iff_of_nodup ((hnamed.nodup_scan current root extensions).filter _) hnodup).2 hmem
  have hlost : ∀ path ∈ t.scan current root extensions, path ∉ left →
      (SourceUnit.ofFile t current lenient path).toOption = none :=
    fun path hpath hlost => hbroken path ((hleft hpath).1 hlost)
  obtain ⟨hsources, hunits, hinventory, hstatistics⟩ :=
    analyze_of_extends hnamed (t.extends_delete current gone) hlost
  refine ⟨?_, hunits, hinventory, ?_⟩
  · refine hsources.trans (List.filter_congr ?_)
    intro f _
    exact decide_eq_decide.2 (not_congr (hmem f.1))
  · rw [← hperm.length_eq]
    exact hstatistics

end Project

/-- Of a project with broken files, any of these may be deleted, and any number of broken files may be
added below the root: the other files have the same declarations in the same order, the inventory is the
same, and the only figures to change are those of the files found and failed, by that number. -/
theorem broken_files_isolated (t : FileTree) (hnamed : t.Named) (current : Place) (root : String)
    (extensions : List String) (lenient : Bool) :
    let sources (u : FileTree) := Project.sources u current root extensions lenient
    let analysis (u : FileTree) := (Project.analyze u current root extensions lenient).1
    let scan (u : FileTree) := u.scan current root extensions
    let broken (u : FileTree) (path : String) :=
      ∃ failure, SourceUnit.ofFile u current lenient path = .error failure
    (∀ gone : List String, gone.Nodup → (∀ path ∈ gone, path ∈ scan t ∧ broken t path) →
      let u := t.delete current gone
      sources u = (sources t).filter (·.1 ∉ gone) ∧
        Project.units (sources u) = Project.units (sources t) ∧
        (analysis u).inventory = (analysis t).inventory ∧
        gone.length ≤ (analysis t).statistics.filesFailed ∧
        (analysis u).statistics =
          { (analysis t).statistics with
            filesDiscovered := (analysis t).statistics.filesDiscovered - gone.length
            filesFailed := (analysis t).statistics.filesFailed - gone.length }) ∧
    ∀ u : FileTree, u.Named → t.Extends u →
      let added := (scan u).filter (· ∉ scan t)
      (∀ path ∈ added, broken u path) →
        sources t = (sources u).filter (·.1 ∉ added) ∧
          Project.units (sources t) = Project.units (sources u) ∧
          (analysis u).inventory = (analysis t).inventory ∧
          (analysis u).statistics =
            { (analysis t).statistics with
              filesDiscovered := (analysis t).statistics.filesDiscovered + added.length
              filesFailed := (analysis t).statistics.filesFailed + added.length } := by
  intro sources analysis scan broken
  have hnone {u : FileTree} {path : String} (hbroken : broken u path) :
      (SourceUnit.ofFile u current lenient path).toOption = none := by
    obtain ⟨failure, herror⟩ := hbroken
    rw [herror]
    rfl
  constructor
  · intro gone hnodup hgone u
    obtain ⟨hsources, hunits, hinventory, hstatistics⟩ := Project.analyze_delete hnamed hnodup
      (fun path hpath => (hgone path hpath).1) (fun path hpath => hnone (hgone path hpath).2)
    have hfailed : (analysis t).statistics.filesFailed =
        (analysis u).statistics.filesFailed + gone.length := congrArg (·.filesFailed) hstatistics
    have hdiscovered : (analysis t).statistics.filesDiscovered =
        (analysis u).statistics.filesDiscovered + gone.length :=
      congrArg (·.filesDiscovered) hstatistics
    refine ⟨hsources, hunits, hinventory.symm, by omega, ?_⟩
    rw [hfailed, hdiscovered, Nat.add_sub_cancel, Nat.add_sub_cancel]
    dsimp only [analysis]
    rw [hstatistics]
  · intro u hnamed' hextends added hadded
    refine Project.analyze_of_extends hnamed' hextends ?_
    intro path hpath hnew
    exact hnone (hadded path (List.mem_filter.2 ⟨hpath, by simpa using hnew⟩))

set_option maxRecDepth 100000 in
theorem SourceUnit.ofText_stray : ofText false "#".toList = .error ⟨.start⟩ := by
  decide +kernel

/-- A broken file after a controller is deleted, and another one is added before it. -/
theorem broken_files_isolated_beside :
    let broken := Text.Utf8.encode "#".toList
    let t := FileTree.empty
      |>.plant ["src", "B.java"] (.file (Text.Utf8.encode "@Path class A{}".toList))
      |>.plant ["src", "C.java"] (.file broken)
    let u := t.put ["src", "A.java"] (.file broken)
    let analysis (u : FileTree) := (Project.analyze u [] "src" ["java"] false).1
    t.Named ∧ u.Named ∧ t.Extends u ∧
      t.scan [] "src" ["java"] = ["src/B.java", "src/C.java"] ∧
      u.scan [] "src" ["java"] = ["src/A.java", "src/B.java", "src/C.java"] ∧
      (analysis (t.delete [] ["src/C.java"])).statistics.filesFailed = 0 ∧
      (analysis t).statistics.filesFailed = 1 ∧ (analysis u).statistics.filesFailed = 2 ∧
      (analysis (t.delete [] ["src/C.java"])).inventory = .ofList [("A", .empty)] ∧
      (analysis t).inventory = .ofList [("A", .empty)] ∧
      (analysis u).inventory = .ofList [("A", .empty)] := by
  intro broken t u analysis
  have hnamed : t.Named := by decide
  have hnamed' : u.Named := by decide
  have hextends : t.Extends u := FileTree.extends_put (by decide) (by decide) (by simp)
  have hscan : t.scan [] "src" ["java"] = ["src/B.java", "src/C.java"] := by
    rw [FileTree.scan_of_place (by decide : t.place [] "src" = .ok ["src"]) (by decide),
      FileTree.selectSources, List.mergeSort_of_pairwise (by decide)]
    decide
  have hscan' : u.scan [] "src" ["java"] = ["src/A.java", "src/B.java", "src/C.java"] := by
    rw [FileTree.scan_of_place (by decide : u.place [] "src" = .ok ["src"]) (by decide),
      FileTree.selectSources, List.mergeSort_of_pairwise (by decide)]
    decide
  have hstray : SourceUnit.ofBytes false broken = .error ⟨.start⟩ := by
    have htext : Text.Utf8.decodeLossy broken = "#".toList := by decide
    rw [SourceUnit.ofBytes, htext, SourceUnit.ofText_stray]
  have hbroken (v : FileTree) (path : String) (hread : v.read [] path = .ok broken) :
      SourceUnit.ofFile v [] false path = .error (.malformed ⟨.start⟩) :=
    SourceUnit.ofFile_of_error hread hstray
  have hsources : Project.sources t [] "src" ["java"] false =
      [("src/B.java", .ok ⟨none, [⟨"A", .classType, [⟨"Path"⟩], [], []⟩]⟩),
        ("src/C.java", .error (.malformed ⟨.start⟩))] := by
    have hread : t.read [] "src/B.java" = .ok (Text.Utf8.encode "@Path class A{}".toList) := by
      decide
    have htext : Text.Utf8.decodeLossy (Text.Utf8.encode "@Path class A{}".toList) =
        "@Path class A{}".toList := by decide
    have hbytes : SourceUnit.ofBytes false (Text.Utf8.encode "@Path class A{}".toList) =
        .ok ⟨none, [⟨"A", .classType, [⟨"Path"⟩], [], []⟩]⟩ := by
      rw [SourceUnit.ofBytes, htext, SourceUnit.ofText_controller]
    rw [Project.sources, hscan, List.map_cons, List.map_singleton,
      hbroken t "src/C.java" (by decide), SourceUnit.ofFile_eq_ok_iff.2 ⟨_, hread, hbytes⟩]
  have hfailed : (analysis t).statistics.filesFailed = 1 := by
    dsimp only [analysis]
    rw [Project.filesFailed_analyze, hsources]
    rfl
  have hinventory : (analysis t).inventory = .ofList [("A", .empty)] := by
    dsimp only [analysis]
    rw [Project.analyze, hsources]
    rfl
  obtain ⟨hdelete, hadd⟩ := broken_files_isolated t hnamed [] "src" ["java"] false
  obtain ⟨-, -, hinventoryDelete, -, hdeleted⟩ := hdelete ["src/C.java"] (by simp) (by
    intro path hpath
    rw [List.mem_singleton] at hpath
    subst hpath
    refine ⟨?_, _, hbroken t "src/C.java" (by decide)⟩
    dsimp only
    rw [hscan]
    simp)
  have hadded : (u.scan [] "src" ["java"]).filter (· ∉ t.scan [] "src" ["java"]) = ["src/A.java"] := by
    rw [hscan, hscan']
    decide
  obtain ⟨-, -, hinventoryAdd, hgrown⟩ := hadd u hnamed' hextends (by
    intro path hpath
    rw [hadded, List.mem_singleton] at hpath
    subst hpath
    exact ⟨_, hbroken u "src/A.java" (by decide)⟩)
  have hfewer : (analysis (t.delete [] ["src/C.java"])).statistics.filesFailed =
      (analysis t).statistics.filesFailed - 1 := congrArg (·.filesFailed) hdeleted
  have hmore : (analysis u).statistics.filesFailed = (analysis t).statistics.filesFailed +
      ((u.scan [] "src" ["java"]).filter (· ∉ t.scan [] "src" ["java"])).length :=
    congrArg (·.filesFailed) hgrown
  rw [hfailed] at hfewer hmore
  rw [hadded] at hmore
  exact ⟨hnamed, hnamed', hextends, hscan, hscan', hfewer, hfailed, hmore,
    hinventoryDelete.trans hinventory, hinventory, hinventoryAdd.trans hinventory⟩

end EndpointAtlas
