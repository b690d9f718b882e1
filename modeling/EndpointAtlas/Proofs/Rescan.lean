import EndpointAtlas.Project
import EndpointAtlas.Proofs.Repetition
import EndpointAtlas.Proofs.Scan

/-!
# The sources are found again

A report whose name has none of the wanted extensions spares the sources: none is added, and none is
changed. A root that leads where it led before has the same sources below it, with the same content.
-/

namespace EndpointAtlas

namespace FileTree

variable {t u v s : FileTree} {current top p q : Place} {root path name : String}
  {extensions : List String} {e : Entry}

/-! ### Sources that are spared -/

/-- Whether `u` is `t` with other things added, but none of the files with a wanted extension touched. -/
structure Spares (extensions : List String) (t u : FileTree) : Prop where
  grown : Grown t u
  file : ∀ p content, placeHasExtension p extensions →
    (u.get? p = some (.file content) ↔ t.get? p = some (.file content))

theorem Spares.trans (htu : Spares extensions t u) (huv : Spares extensions u v) :
    Spares extensions t v := by
  refine ⟨htu.grown.trans huv.grown, ?_⟩
  intro p content hp
  rw [huv.file p content hp, htu.file p content hp]

theorem Furnished.spares (h : Furnished t u) (extensions : List String) : Spares extensions t u := by
  refine ⟨h.grown, ?_⟩
  intro p content _
  exact ⟨fun hfile => h.get?_of_ne_directory hfile (by simp), h.get?_of_some⟩

theorem spares_put {content : List UInt8} (htarget : t.target current path = .ok p)
    (hp : ¬ placeHasExtension p extensions) : Spares extensions t (t.put p (.file content)) := by
  refine ⟨grown_of_target htarget, ?_⟩
  intro q content' hq
  have hne : q ≠ p := by
    rintro rfl
    exact hp hq
  rw [get?_put (accepts_of_target htarget).1, if_neg hne]

/-- A file that is written has the extension that its path has. -/
theorem placeHasExtension_of_target (hfree : t.Direct current path)
    (htarget : t.target current path = .ok p) :
    placeHasExtension p extensions = Path.hasExtension path extensions := by
  have hne : path ≠ "" := by
    rintro rfl
    cases htarget
  obtain ⟨-, hwalk, hplain⟩ := (target_iff hfree hne).1 htarget
  cases hparent : Path.parent? path with
  | none =>
      obtain ⟨f, herror⟩ := target_of_parent?_eq_none t current hparent
      rw [htarget] at herror
      cases herror
  | some above =>
      obtain ⟨name, between, after, hcontinues⟩ := continues_of_parent? hparent
      have hsteps : stepsOf path = (stepsOf above ++ between) ++ name :: after := by
        rw [hcontinues.steps, List.append_assoc]
      rw [hsteps] at hwalk
      obtain ⟨q, l, hl, -, hdir, hlast⟩ := walk_split (by simp) hwalk
      cases Nat.le_zero.1 hl
      cases after with
      | cons dot dots =>
          rw [List.append_cons] at hwalk
          exact absurd (isDirectory_of_walk_dots (by simp) hcontinues.after_name hwalk) hplain
      | nil =>
          have hp : p = advance q name := eq_foldl_advance hlast
          by_cases hdot : name = "."
          · rw [hp, hdot] at hplain
            exact absurd hdir hplain
          by_cases hup : name = ".."
          · rw [hp, hup] at hplain
            exact absurd (isDirectory_dropLast hdir) hplain
          unfold placeHasExtension Path.hasExtension
          rw [hp, advance_of_ne hdot hup, List.getLast?_concat,
            Path.fileName?_of_last hcontinues.last hdot hup]

/-- Writing a report spares the sources if its path has none of their extensions. -/
theorem Spares.of_attempt {text : List Char} {written : Bool}
    (h : Report.Attempt t current path text u written) (hfree : t.Direct current path)
    (hpath : ¬ Path.hasExtension path extensions) : Spares extensions t u := by
  cases h with
  | written hready htarget =>
      have hspares := hready.furnished.spares extensions
      refine hspares.trans (spares_put htarget ?_)
      rwa [placeHasExtension_of_target (hfree.grown hspares.grown) htarget]
  | refused _ hfurnished => exact hfurnished.spares extensions

/-! ### Where the paths of the listing lead -/

theorem isDirectory_of_get?_append (hentry : t.get? (p ++ q) = some e) (hq : q ≠ []) :
    t.isDirectory p := by
  induction q using List.reverseRecOn generalizing e with
  | nil => exact absurd rfl hq
  | append_singleton q name ih =>
      have hparent := isDirectory_dropLast_of_get? hentry
      rw [← List.append_assoc, List.dropLast_concat] at hparent
      by_cases hnil : q = []
      · rwa [hnil, List.append_nil] at hparent
      · exact ih (isDirectory_iff.1 hparent) hnil

theorem stepsOf_join (hroot : root ≠ "") (hname : Path.IsName name) :
    ∃ steps tail, stepsOf root = steps ++ tail ∧ (∀ dot ∈ tail, dot = ".") ∧
      stepsOf (Path.join root name) = steps ++ [name] := by
  obtain ⟨before, hjoin, hpieces⟩ := Path.pieces_join hroot hname
  obtain ⟨tail, hsteps, hdots, -⟩ := stepsOf_eq root
  refine ⟨Path.names before, tail, ?_, hdots, ?_⟩
  · rw [hsteps]
    obtain heq | heq := hpieces
    · rw [heq]
    · rw [heq, Path.names_append]
      simp [Path.names]
  · rw [stepsOf_of_isStep hjoin (hname.isStep 0), Path.names_append]
    simp [Path.names, hname.nonempty]

theorem place_join (hroot : t.place current root = .ok top) (htop : t.isDirectory top)
    (hname : Path.IsName name) (hlink : ∀ target, t.get? (top ++ [name]) ≠ some (.link target)) :
    t.place current (Path.join root name) = .ok (top ++ [name]) := by
  have hne := root_ne_empty_of_place hroot
  obtain ⟨steps, tail, hsteps, hdots, hjoin⟩ := stepsOf_join hne hname
  unfold place follow at hroot ⊢
  rw [if_neg (by rwa [String.isEmpty_iff]), hsteps] at hroot
  rw [if_neg (by rw [String.isEmpty_iff]; exact Path.join_ne_empty hne hname), hjoin,
    Path.isAbsolute_join hne hname]
  have hadvance : advance top name = top ++ [name] := advance_of_ne hname.not_dot hname.not_up
  rw [← hadvance] at hlink ⊢
  refine walk_append ?_ (walk_singleton htop hlink)
  by_cases htail : tail = []
  · rwa [htail, List.append_nil] at hroot
  · obtain ⟨q, l, -, hwalk, hdir, hlast⟩ := walk_split htail hroot
    rw [walk_dots hdir hdots] at hlast
    cases hlast
    exact hwalk

theorem place_foldl_join (hroot : t.place current root = .ok top)
    (hnames : ∀ name ∈ p, Path.IsName name) (hentry : t.get? (top ++ p) = some e)
    (hplain : ∀ target, e ≠ .link target) :
    t.place current (p.foldl Path.join root) = .ok (top ++ p) := by
  induction p using List.reverseRecOn generalizing e with
  | nil => rwa [List.append_nil]
  | append_singleton p name ih =>
      have hparent := isDirectory_dropLast_of_get? hentry
      rw [← List.append_assoc, List.dropLast_concat] at hparent
      rw [← List.append_assoc] at hentry
      have hbefore := ih (fun n hn => hnames n (List.mem_append_left _ hn))
        (isDirectory_iff.1 hparent) (by simp)
      rw [List.foldl_concat, ← List.append_assoc]
      refine place_join hbefore hparent (hnames name (by simp)) ?_
      intro target hlink
      rw [hentry] at hlink
      exact hplain target (Option.some.inj hlink)

/-! ### The same sources -/

theorem placeHasExtension_append (hp : p ≠ []) :
    placeHasExtension (top ++ p) extensions = placeHasExtension p extensions := by
  unfold placeHasExtension
  rw [List.getLast?_append_of_ne_nil _ hp]

theorem mem_sources_of_spares (hspares : Spares extensions t u) :
    p ∈ selectSources extensions (u.filesBelow top) ↔
      p ∈ selectSources extensions (t.filesBelow top) := by
  rw [mem_selectSources_iff, mem_selectSources_iff, mem_filesBelow_iff, mem_filesBelow_iff]
  have hfile (hne : p ≠ []) (hp : placeHasExtension p extensions) (content : List UInt8) :
      u.get? (top ++ p) = some (.file content) ↔ t.get? (top ++ p) = some (.file content) :=
    hspares.file _ _ (by rwa [placeHasExtension_append hne])
  constructor
  · rintro ⟨⟨hne, content, hcontent⟩, hp⟩
    exact ⟨⟨hne, content, (hfile hne hp content).1 hcontent⟩, hp⟩
  · rintro ⟨⟨hne, content, hcontent⟩, hp⟩
    exact ⟨⟨hne, content, (hfile hne hp content).2 hcontent⟩, hp⟩

theorem selectSources_of_spares (hspares : Spares extensions t u) (top : Place) :
    selectSources extensions (u.filesBelow top) = selectSources extensions (t.filesBelow top) := by
  refine (pairwise_selectSources (nodup_filesBelow u top)).eq_of_mem_iff
    (pairwise_selectSources (nodup_filesBelow t top)) ?_
  intro p
  exact mem_sources_of_spares hspares

/-- A source has the content that it had. -/
theorem read_of_spares (hnamed : t.Named) (hspares : Spares extensions t u)
    (hplace : t.place current root = .ok top)
    (hp : p ∈ selectSources extensions (t.filesBelow top)) :
    u.read current (p.foldl Path.join root) = t.read current (p.foldl Path.join root) := by
  obtain ⟨hbelow, hextension⟩ := mem_selectSources_iff.1 hp
  obtain ⟨hne, content, hcontent⟩ := mem_filesBelow_iff.1 hbelow
  have hpath := place_foldl_join hplace (hnamed.isName_of_mem_filesBelow hbelow) hcontent (by simp)
  have hcontent' := (hspares.file (top ++ p) content (by rwa [placeHasExtension_append hne])).2 hcontent
  unfold read find
  rw [hpath, place_grown hspares.grown hpath]
  simp only [hcontent, hcontent']

/-- A directory that a root did not lead to had nothing in it, unless it was there before. -/
theorem scan_eq_nil_of_spares (hspares : Spares extensions t u)
    (hplace : u.place current root = .ok top) (htop : ¬ t.isDirectory top) :
    u.scan current root extensions = [] := by
  by_cases hdir : u.isDirectory top
  · rw [scan_of_place hplace hdir, selectSources_of_spares hspares, List.map_eq_nil_iff,
      List.eq_nil_iff_forall_not_mem]
    intro p hp
    obtain ⟨hne, content, hcontent⟩ := mem_filesBelow_iff.1 (mem_selectSources_iff.1 hp).1
    exact htop (isDirectory_of_get?_append hcontent hne)
  · apply scan_eq_nil
    intro top' hplace'
    cases hplace.symm.trans hplace'
    exact hdir

/-- Where the sources are spared, and the root does not come to lead to a directory that was there
before, the project has the same sources. -/
theorem sources_of_spares {lenient : Bool} (hnamed : t.Named) (hspares : Spares extensions t u)
    (hkept : ∀ top, u.place current root = .ok top → t.isDirectory top →
      t.place current root = .ok top) :
    Project.sources u current root extensions lenient =
      Project.sources t current root extensions lenient := by
  unfold Project.sources
  have hgrown {top : Place} (h : t.place current root = .ok top) : u.place current root = .ok top :=
    place_grown hspares.grown h
  cases hplace : u.place current root with
  | error f =>
      rw [scan_eq_nil (t := u) (by simp [hplace]), scan_eq_nil (t := t)]
      · rfl
      · intro top htop
        rw [hgrown htop] at hplace
        cases hplace
  | ok top =>
      by_cases htop : t.isDirectory top
      · have hplace' := hkept top hplace htop
        rw [scan_of_place hplace (hspares.grown.directory top htop), scan_of_place hplace' htop,
          selectSources_of_spares hspares, List.map_map, List.map_map]
        apply List.map_congr_left
        intro p hp
        have hread := read_of_spares hnamed hspares hplace' hp
        unfold SourceUnit.ofFile
        simp only [Function.comp_apply, hread]
      · rw [scan_eq_nil_of_spares hspares hplace htop, scan_eq_nil (t := t)]
        · rfl
        · intro top' hplace'
          cases (hgrown hplace').symm.trans hplace
          exact htop

end FileTree

end EndpointAtlas
