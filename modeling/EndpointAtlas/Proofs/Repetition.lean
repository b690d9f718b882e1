import EndpointAtlas.Proofs.LinkFree
import EndpointAtlas.Proofs.Writing

/-!
# What was done is not done again

Directories that were made are there, and what kept a directory or a report from being made is a file,
which no run removes. So where no link stands on the way, an attempt that is repeated comes to what it
came to before, also if other directories and files have been added since.
-/

namespace EndpointAtlas

namespace FileTree

variable {t u v s : FileTree} {current p : Place} {path above name : String} {between : List String}
  {f : Fault} {fuel : Nat}

theorem isDirectory_start (hcurrent : t.isDirectory current) (path : String) :
    t.isDirectory (start current path) := by
  unfold start
  split
  · rfl
  · exact hcurrent

/-! ### One directory -/

section Directory

variable (hfree : t.Direct current path) (hne : path ≠ "")

include hfree hne

theorem leadsToDirectory_of_walk
    (hwalk : t.walk true 0 (start current path) (stepsOf path) = .ok p) :
    t.leadsToDirectory current path = t.isDirectory p := by
  unfold leadsToDirectory find
  rw [hfree.place_eq hne, hwalk]
  cases hentry : t.get? p with
  | none => simp [isDirectory, hentry]
  | some e => cases e <;> simp [isDirectory, hentry]

theorem ensureDirectory_of_error
    (hwalk : t.walk true 0 (start current path) (stepsOf path) = .error f) :
    t.ensureDirectory current path = (t, some f) := by
  have hmake : t.makeDirectory current path = .error f := by
    unfold makeDirectory
    rw [hfree.follow_eq hne, hwalk]
  have hleads : t.leadsToDirectory current path = false := by
    unfold leadsToDirectory find
    rw [hfree.place_eq hne, hwalk]
  unfold ensureDirectory
  rw [hmake]
  simp only [hleads, Bool.false_eq_true, if_false]

theorem ensureDirectory_of_taken {e : Entry}
    (hwalk : t.walk true 0 (start current path) (stepsOf path) = .ok p)
    (hentry : t.get? p = some e) :
    t.ensureDirectory current path = (t, if t.isDirectory p then none else some .occupied) := by
  have hmake : t.makeDirectory current path = .error .occupied := by
    unfold makeDirectory
    rw [hfree.follow_eq hne, hwalk]
    simp only [hentry, Option.isSome_some, if_true]
  unfold ensureDirectory
  rw [hmake]
  simp only [leadsToDirectory_of_walk hfree hne hwalk]

theorem ensureDirectory_of_free
    (hwalk : t.walk true 0 (start current path) (stepsOf path) = .ok p) (hnone : t.get? p = none) :
    t.ensureDirectory current path = (t.put p .directory, none) := by
  have hmake : t.makeDirectory current path = .ok (t.put p .directory) := by
    unfold makeDirectory
    rw [hfree.follow_eq hne, hwalk]
    simp only [hnone, Option.isSome_none, Bool.false_eq_true, if_false]
  unfold ensureDirectory
  rw [hmake]

theorem ensureDirectory_of_opens (hopens : t.Opens current path) :
    t.ensureDirectory current path = (t, none) := by
  obtain ⟨p, hwalk, hdir⟩ := hopens
  rw [ensureDirectory_of_taken hfree hne hwalk (isDirectory_iff.1 hdir), if_pos hdir]

theorem opens_of_ensureDirectory (hcurrent : t.isDirectory current)
    (h : t.ensureDirectory current path = (u, none)) : u.Opens current path := by
  cases hwalk : t.walk true 0 (start current path) (stepsOf path) with
  | error f =>
      rw [ensureDirectory_of_error hfree hne hwalk] at h
      cases h
  | ok p =>
      cases hentry : t.get? p with
      | some e =>
          rw [ensureDirectory_of_taken hfree hne hwalk hentry] at h
          by_cases hdir : t.isDirectory p
          · rw [if_pos hdir] at h
            cases h
            exact ⟨p, hwalk, hdir⟩
          · rw [if_neg hdir] at h
            cases h
      | none =>
          rw [ensureDirectory_of_free hfree hne hwalk hentry] at h
          cases h
          have hsettled := settled_of_walk (isDirectory_start hcurrent path) hwalk
          have hplain : ¬ t.isDirectory p := by simp [isDirectory_iff, hentry]
          have haccepts : t.accepts p := by
            refine accepts_iff.2 ⟨?_, (hsettled.resolve_left hplain).1, hplain⟩
            rintro rfl
            exact hplain rfl
          refine ⟨p, walk_grown (furnished_put hentry).grown hwalk, ?_⟩
          rw [isDirectory_iff, get?_put haccepts, if_pos rfl]

end Directory

theorem ensureDirectory_of_fault (h : (t.ensureDirectory current path).2 = some f) :
    t.ensureDirectory current path = (t, some f) := by
  unfold ensureDirectory at h ⊢
  cases hmake : t.makeDirectory current path with
  | ok u =>
      rw [hmake] at h
      cases h
  | error g =>
      rw [hmake] at h
      exact Prod.ext rfl h

theorem opens_of_parent?_eq_none (hparent : Path.parent? path = none) (hne : path ≠ "") :
    t.Opens current path := by
  obtain ⟨habsolute, hdots⟩ := (steps_of_parent?_eq_none hparent).resolve_left hne
  refine ⟨[], ?_, rfl⟩
  unfold start
  rw [if_pos habsolute]
  exact walk_dots rfl hdots

/-- Where the path above leads to a directory, only a file keeps a directory from being made, and it does
so from then on. -/
theorem occupied_again (hcurrent : t.isDirectory current)
    (hcontinues : Continues above path name between []) (hfree : t.Direct current path) (hne : path ≠ "")
    (habove : t.Opens current above) (h : t.ensureDirectory current path = (s, some f))
    (hgrown : Grown t v) :
    v.ensureDirectory current path = (v, some .occupied) := by
  have hwalk := hcontinues.walk_eq hfree habove
  have hwalk' := hcontinues.walk_eq (hfree.grown hgrown) (habove.grown hgrown)
  cases hentry : t.get? ((stepsOf path).foldl advance (start current path)) with
  | none =>
      rw [ensureDirectory_of_free hfree hne hwalk hentry] at h
      cases h
  | some e =>
      rw [ensureDirectory_of_taken hfree hne hwalk hentry] at h
      cases e with
      | directory =>
          rw [if_pos (isDirectory_iff.2 hentry)] at h
          cases h
      | link target =>
          obtain hdir | ⟨-, hlink⟩ := settled_of_walk (isDirectory_start hcurrent path) hwalk
          · rw [isDirectory_iff, hentry] at hdir
            cases hdir
          · exact absurd hentry (hlink target)
      | file content =>
          obtain ⟨content', hfile⟩ := hgrown.file _ _ hentry
          rw [ensureDirectory_of_taken (hfree.grown hgrown) hne hwalk' hfile]
          simp [isDirectory, hfile]

/-! ### A directory and those above it -/

theorem ensureDirectories_of_last (hne : path ≠ "")
    (hlast : (t.ensureDirectory current path).2 = some .notFound → Path.parent? path = none) :
    ensureDirectories current (fuel + 1) t path = t.ensureDirectory current path := by
  unfold ensureDirectories
  rw [if_neg (by rwa [String.isEmpty_iff])]
  split
  · next hmissing hparent =>
    rw [hlast (congrArg Prod.snd hmissing)] at hparent
    cases hparent
  · rfl

/-- A directory that misses the one above it waits for that one to be made. -/
theorem ensureDirectories_of_missing (hne : path ≠ "")
    (hmissing : t.ensureDirectory current path = (t, some .notFound))
    (hparent : Path.parent? path = some above) :
    ensureDirectories current (fuel + 1) t path =
      match ensureDirectories current fuel t above with
      | (u, none) => u.ensureDirectory current path
      | (u, some f) => (u, some f) := by
  conv_lhs => unfold ensureDirectories
  rw [if_neg (by rwa [String.isEmpty_iff])]
  simp only [hmissing, hparent]
  cases ensureDirectories current fuel t above with
  | mk u fault => cases fault <;> rfl

/-- Either a directory comes to what is made of it alone, or the ones above it are made first. -/
theorem ensureDirectories_cases {fault : Option Fault} (hne : path ≠ "")
    (h : ensureDirectories current (fuel + 1) t path = (s, fault)) :
    (t.ensureDirectory current path = (s, fault) ∧
      (fault = some .notFound → Path.parent? path = none)) ∨
    ∃ above, Path.parent? path = some above ∧
      t.ensureDirectory current path = (t, some .notFound) ∧
      ((∃ f, fault = some f ∧ ensureDirectories current fuel t above = (s, some f)) ∨
        ∃ u, ensureDirectories current fuel t above = (u, none) ∧
          u.ensureDirectory current path = (s, fault)) := by
  by_cases hlast : (t.ensureDirectory current path).2 = some .notFound → Path.parent? path = none
  · rw [ensureDirectories_of_last hne hlast] at h
    rw [h] at hlast
    exact Or.inl ⟨h, hlast⟩
  · obtain ⟨hfault, hsome⟩ := Classical.not_imp.1 hlast
    obtain ⟨above, hparent⟩ := Option.ne_none_iff_exists'.1 hsome
    have hmissing := ensureDirectory_of_fault hfault
    refine Or.inr ⟨above, hparent, hmissing, ?_⟩
    rw [ensureDirectories_of_missing hne hmissing hparent] at h
    split at h
    · next u hmade => exact Or.inr ⟨u, hmade, h⟩
    · next u f hmade =>
      cases h
      exact Or.inl ⟨f, rfl, hmade⟩

theorem ensureDirectories_of_opens (hfree : t.Direct current path) (hopens : t.Opens current path) :
    ensureDirectories current (fuel + 1) t path = (t, none) := by
  by_cases hne : path = ""
  · unfold ensureDirectories
    rw [if_pos (by rwa [String.isEmpty_iff])]
  · have hensure := ensureDirectory_of_opens hfree hne hopens
    rw [ensureDirectories_of_last hne (by simp [hensure]), hensure]

theorem opens_of_ensureDirectories (hcurrent : t.isDirectory current) (hfree : t.Direct current path)
    (h : ensureDirectories current fuel t path = (u, none)) : u.Opens current path := by
  cases fuel with
  | zero => cases h
  | succ fuel =>
      by_cases hne : path = ""
      · subst hne
        cases h
        exact ⟨current, rfl, hcurrent⟩
      obtain ⟨hensure, -⟩ | ⟨above, -, -, ⟨f, hfault, -⟩ | ⟨s, hmade, hensure⟩⟩ :=
        ensureDirectories_cases hne h
      · exact opens_of_ensureDirectory hfree hne hcurrent hensure
      · cases hfault
      · have hfurnished := furnished_ensureDirectories current fuel t above
        rw [hmade] at hfurnished
        exact opens_of_ensureDirectory (hfree.grown hfurnished.grown) hne
          (hfurnished.grown.directory current hcurrent) hensure

/-- Without the directory above, a directory is not made either. -/
theorem ensureDirectories_of_above (hcontinues : Continues above path name between [])
    (hparent : Path.parent? path = some above) (hfree : t.Direct current path) (hne : path ≠ "")
    (habove : ensureDirectories current (fuel + 1) t above = (t, some f)) :
    ∃ g, ensureDirectories current (fuel + 1 + 1) t path = (t, some g) := by
  cases hwalk : t.walk true 0 (start current path) (stepsOf path) with
  | ok p =>
      rw [ensureDirectories_of_opens (hcontinues.direct hfree) (hcontinues.opens hwalk)] at habove
      cases habove
  | error g =>
      have hensure := ensureDirectory_of_error hfree hne hwalk
      by_cases hg : g = .notFound
      · subst hg
        exact ⟨f, by rw [ensureDirectories_of_missing hne hensure hparent, habove]⟩
      · rw [ensureDirectories_of_last hne (by simp [hensure, hg])]
        exact ⟨g, hensure⟩

/-- Directories that could not be made cannot be made again, and none are made in the attempt. -/
theorem ensureDirectories_again (hcurrent : t.isDirectory current) (hfree : t.Direct current path)
    (htidy : Tidy path) (hfuel : (stepsOf path).length < fuel)
    (h : ensureDirectories current fuel t path = (s, some f)) (hgrown : Grown s v) :
    ∃ g, ensureDirectories current fuel v path = (v, some g) := by
  -- Along the paths above: each fails for a file that stays, or for what is missing further up.
  induction fuel generalizing path s f with
  | zero => exact absurd hfuel (Nat.not_lt_zero _)
  | succ fuel ih =>
      have hts : Grown t s := by
        have hfurnished := furnished_ensureDirectories current (fuel + 1) t path
        rw [h] at hfurnished
        exact hfurnished.grown
      have htv := hts.trans hgrown
      have hfree' := hfree.grown htv
      have hne : path ≠ "" := by
        rintro rfl
        cases h
      have hpersistent {g : Fault} (hg : g ≠ .notFound)
          (hfailed : v.ensureDirectory current path = (v, some g)) :
          ∃ g, ensureDirectories current (fuel + 1) v path = (v, some g) := by
        rw [ensureDirectories_of_last hne (by simp [hfailed, hg])]
        exact ⟨g, hfailed⟩
      cases hparent : Path.parent? path with
      | none =>
          rw [ensureDirectories_of_opens hfree (opens_of_parent?_eq_none hparent hne)] at h
          cases h
      | some above =>
          obtain ⟨name, between, after, hcontinues⟩ := continues_of_parent? hparent
          cases hcontinues.tidy htidy
          obtain ⟨hensure, hother⟩ | ⟨above', hparent', -, hupper⟩ := ensureDirectories_cases hne h
          · have hf : f ≠ .notFound := by
              rintro rfl
              rw [hother rfl] at hparent
              cases hparent
            cases hwalk : t.walk true 0 (start current path) (stepsOf path) with
            | ok p =>
                exact hpersistent (by simp) (occupied_again hcurrent hcontinues hfree hne
                  (hcontinues.opens hwalk) hensure htv)
            | error g =>
                cases (ensureDirectory_of_error hfree hne hwalk).symm.trans hensure
                refine hpersistent hf (ensureDirectory_of_error hfree' hne ?_)
                exact walk_error_grown htv hfree
                  ⟨_, isDirectory_iff.1 (isDirectory_start hcurrent path), by simp⟩ hf hwalk
          · cases hparent.symm.trans hparent'
            have hdirect := hcontinues.direct hfree
            obtain ⟨g, hfault, hmade⟩ | ⟨s', hmade, hensure⟩ := hupper
            · cases hfault
              obtain ⟨habove, -, -⟩ := above_of_parent? hparent
              have hshorter : (stepsOf above).length < fuel :=
                Nat.lt_of_lt_of_le hcontinues.length_lt (Nat.le_of_lt_succ hfuel)
              obtain ⟨g, hagain⟩ := ih hdirect habove hshorter hmade hgrown
              cases fuel with
              | zero => exact absurd hshorter (Nat.not_lt_zero _)
              | succ fuel => exact ensureDirectories_of_above hcontinues hparent hfree' hne hagain
            · have hopens := opens_of_ensureDirectories hcurrent hdirect hmade
              have hfurnished := furnished_ensureDirectories current fuel t above
              rw [hmade] at hfurnished
              have hgrown' : Grown t s' := hfurnished.grown
              cases (ensureDirectory_of_fault (congrArg Prod.snd hensure)).symm.trans hensure
              exact hpersistent (by simp) (occupied_again (hgrown'.directory _ hcurrent)
                hcontinues (hfree.grown hgrown') hne hopens hensure hgrown)

section Above

variable (hparent : Path.parent? path = some above) (hfree : t.Direct current path)

include hparent hfree

theorem direct_above : t.Direct current above := by
  obtain ⟨name, between, after, hcontinues⟩ := continues_of_parent? hparent
  exact hcontinues.direct hfree

theorem makeDirectories_of_opens (hopens : t.Opens current above) :
    t.makeDirectories current above = (t, none) :=
  ensureDirectories_of_opens (direct_above hparent hfree) hopens

theorem opens_of_makeDirectories (hcurrent : t.isDirectory current)
    (h : t.makeDirectories current above = (u, none)) : u.Opens current above :=
  opens_of_ensureDirectories hcurrent (direct_above hparent hfree) h

theorem makeDirectories_again (hcurrent : t.isDirectory current)
    (h : t.makeDirectories current above = (s, some f)) (hgrown : Grown s v) :
    ∃ g, v.makeDirectories current above = (v, some g) := by
  obtain ⟨htidy, hlength, -⟩ := above_of_parent? hparent
  exact ensureDirectories_again hcurrent (direct_above hparent hfree) htidy
    (Nat.lt_succ_of_le hlength) h hgrown

end Above

/-! ### Where a file goes -/

theorem target_iff (hfree : t.Direct current path) (hne : path ≠ "") :
    t.target current path = .ok p ↔ path.toList.getLast? ≠ some '/' ∧
      t.walk true 0 (start current path) (stepsOf path) = .ok p ∧ ¬ t.isDirectory p := by
  unfold target
  dsimp only
  rw [hfree.follow_eq hne]
  by_cases hslash : path.toList.getLast? = some '/'
  · rw [if_pos (beq_iff_eq.2 hslash)]
    split <;> simp [hslash]
  · rw [if_neg (by simpa using hslash)]
    cases t.walk true 0 (start current path) (stepsOf path) with
    | error f => simp
    | ok q =>
        by_cases hdir : t.isDirectory q
        · simp only [hdir, if_true]
          constructor
          · intro h
            cases h
          · rintro ⟨-, h, hplain⟩
            cases h
            exact absurd hdir hplain
        · simp only [hdir]
          constructor
          · intro h
            cases h
            exact ⟨hslash, rfl, hdir⟩
          · rintro ⟨-, h, -⟩
            exact h

theorem target_of_parent?_eq_none (t : FileTree) (current : Place)
    (hparent : Path.parent? path = none) :
    ∃ f, t.target current path = .error f := by
  by_cases hne : path = ""
  · subst hne
    exact ⟨.notFound, rfl⟩
  cases htarget : t.target current path with
  | error f => exact ⟨f, rfl⟩
  | ok p =>
      obtain ⟨hplace, hplain⟩ := place_of_target htarget
      obtain ⟨habsolute, hdots⟩ := (steps_of_parent?_eq_none hparent).resolve_left hne
      unfold place follow at hplace
      rw [if_neg (by rwa [String.isEmpty_iff]), if_pos habsolute,
        walk_dots (isDirectory_nil t) hdots] at hplace
      cases hplace
      exact absurd (isDirectory_nil t) hplain

/-- Where a file has been written, one can be written. -/
theorem target_of_file {content : List UInt8} (hfree : t.Direct current path)
    (htarget : t.target current path = .ok p) (hgrown : Grown t v)
    (hfile : v.get? p = some (.file content)) : v.target current path = .ok p := by
  have hne : path ≠ "" := by
    rintro rfl
    cases htarget
  obtain ⟨hslash, hwalk, -⟩ := (target_iff hfree hne).1 htarget
  refine (target_iff (hfree.grown hgrown) hne).2 ⟨hslash, walk_grown hgrown hwalk, ?_⟩
  simp [isDirectory_iff, hfile]

/-- Where a file could be written after the directories were made, one can be written now. -/
theorem target_of_grown (hparent : Path.parent? path = some above) (hfree : t.Direct current path)
    (hopens : t.Opens current above) (hgrown : Grown t v) (htarget : v.target current path = .ok p) :
    t.target current path = .ok p := by
  have hne : path ≠ "" := by
    rintro rfl
    cases hparent
  obtain ⟨name, between, after, hcontinues⟩ := continues_of_parent? hparent
  obtain ⟨hslash, hwalk, hplain⟩ := (target_iff (hfree.grown hgrown) hne).1 htarget
  cases after with
  | nil =>
      rw [eq_foldl_advance hwalk] at hplain ⊢
      refine (target_iff hfree hne).2 ⟨hslash, hcontinues.walk_eq hfree hopens, ?_⟩
      exact fun hdir => hplain (hgrown.directory _ hdir)
  | cons dot dots =>
      have hsteps : stepsOf path = (stepsOf above ++ (between ++ [name])) ++ dot :: dots := by
        rw [hcontinues.steps]
        simp
      rw [hsteps] at hwalk
      exact absurd (isDirectory_of_walk_dots (by simp) hcontinues.after_name hwalk) hplain

/-- Directories that have been made need not be made. -/
theorem Readies.again (h : t.Readies current path s) (hcurrent : t.isDirectory current)
    (hfree : t.Direct current path) (hgrown : Grown s v) : v.Readies current path v := by
  have hfree' := hfree.grown (h.furnished.grown.trans hgrown)
  cases hparent : Path.parent? path with
  | none => exact (readies_iff_of_none hparent).2 rfl
  | some above =>
      have hopens := opens_of_makeDirectories hparent hfree hcurrent ((readies_iff_of_some hparent).1 h)
      exact (readies_iff_of_some hparent).2
        (makeDirectories_of_opens hparent hfree' (hopens.grown hgrown))

theorem Readies.target_of_grown (h : t.Readies current path s) (hcurrent : t.isDirectory current)
    (hfree : t.Direct current path) (hgrown : Grown s v) (htarget : v.target current path = .ok p) :
    s.target current path = .ok p := by
  have hfree' := hfree.grown h.furnished.grown
  cases hparent : Path.parent? path with
  | none =>
      obtain ⟨f, herror⟩ := target_of_parent?_eq_none v current hparent
      rw [htarget] at herror
      cases herror
  | some above =>
      have hopens := opens_of_makeDirectories hparent hfree hcurrent ((readies_iff_of_some hparent).1 h)
      exact FileTree.target_of_grown hparent hfree' hopens hgrown htarget

end FileTree

namespace Report

open FileTree

variable {t u v s : FileTree} {current p : Place} {path : String} {text : List Char}

section Again

variable (hcurrent : t.isDirectory current) (hfree : t.Direct current path)

include hcurrent hfree

/-- A report that was written is written to the same file again. -/
theorem write_again (hready : t.Readies current path s) (htarget : s.target current path = .ok p)
    (hgrown : Grown (s.put p (.file (bytes text))) v) :
    v.target current path = .ok p ∧
      write v current path text = (v.put p (.file (bytes text)), none) := by
  have hput : Grown s (s.put p (.file (bytes text))) := grown_of_target htarget
  have hsv := hput.trans hgrown
  obtain ⟨content, hfile⟩ := hgrown.file p (bytes text) (by
    rw [get?_put (accepts_of_target htarget).1, if_pos rfl])
  have htarget' := target_of_file (hfree.grown hready.furnished.grown) htarget hsv hfile
  exact ⟨htarget', write_of_ready (hready.again hcurrent hfree hsv) htarget' text⟩

/-- A report that was refused is refused again, and then nothing is made. -/
theorem refuse_again (hrefused : ¬ t.Writable current path)
    (hgrown : Grown (write t current path text).1 v) :
    ∃ f, write v current path text = (v, some f) := by
  obtain ⟨s, hready⟩ | ⟨above, s, f, hparent, hmade⟩ := readies_cases t current path
  · cases htarget : s.target current path with
    | ok p => exact absurd ⟨s, p, hready, htarget⟩ hrefused
    | error f =>
        rw [write_of_ready_error hready htarget] at hgrown
        cases htarget' : v.target current path with
        | error g =>
            exact ⟨_, write_of_ready_error (hready.again hcurrent hfree hgrown) htarget' text⟩
        | ok p =>
            rw [hready.target_of_grown hcurrent hfree hgrown htarget'] at htarget
            cases htarget
  · rw [write_of_unready hparent hmade] at hgrown
    obtain ⟨g, hagain⟩ := makeDirectories_again hparent hfree hcurrent hmade hgrown
    exact ⟨_, write_of_unready hparent hagain text⟩

/-- A report that was written is written again over what has come in its place, and all is as it was. -/
theorem write_restores (hgrown : Grown (write t current path text).1 v)
    (hsame : ∀ p, v.get? p = (write t current path text).1.get? p ∨
      (write t current path text).2.isNone ∧ (write t current path text).1.place current path = .ok p) :
    (write v current path text).1 = (write t current path text).1 := by
  apply ext_get?
  intro q
  by_cases hwritable : t.Writable current path
  · obtain ⟨s, p, hready, htarget⟩ := hwritable
    rw [write_of_ready hready htarget] at hgrown hsame ⊢
    obtain ⟨htarget', hagain⟩ := write_again hcurrent hfree hready htarget hgrown
    have hplace : (s.put p (.file (bytes text))).place current path = .ok p :=
      place_grown (grown_of_target htarget) (place_of_target htarget).1
    rw [hagain, get?_put (accepts_of_target htarget').1]
    by_cases heq : q = p
    · subst heq
      rw [if_pos rfl, get?_put (accepts_of_target htarget).1, if_pos rfl]
    · rw [if_neg heq]
      refine (hsame q).resolve_right ?_
      rintro ⟨-, hq⟩
      rw [hplace] at hq
      exact heq (Except.ok.inj hq).symm
  · obtain ⟨f, hagain⟩ := refuse_again hcurrent hfree hwritable hgrown
    rw [hagain]
    obtain ⟨s, f, -, hwrite⟩ := write_of_not_writable hwritable text
    rw [hwrite] at hsame ⊢
    simpa using hsame q

/-- A report that is written again after another one changes at most the file of that other one. -/
theorem write_after {path' : String} {text' : List Char} {written : Bool}
    (hafter : Attempt (write t current path text).1 current path' text' v written) (q : Place) :
    (write v current path text).1.get? q = v.get? q ∨ written ∧ v.place current path' = .ok q := by
  have hgrown := hafter.grown
  by_cases hwritable : t.Writable current path
  · obtain ⟨s, p, hready, htarget⟩ := hwritable
    rw [write_of_ready hready htarget] at hafter hgrown
    obtain ⟨htarget', hagain⟩ := write_again hcurrent hfree hready htarget hgrown
    rw [hagain, get?_put (accepts_of_target htarget').1]
    by_cases heq : q = p
    · subst heq
      rw [if_pos rfl]
      refine (hafter.get?_of_file ?_).imp_left Eq.symm
      rw [get?_put (accepts_of_target htarget).1, if_pos rfl]
    · rw [if_neg heq]
      exact Or.inl rfl
  · obtain ⟨f, hagain⟩ := refuse_again hcurrent hfree hwritable hgrown
    rw [hagain]
    exact Or.inl rfl

theorem isNone_write_again (hgrown : Grown (write t current path text).1 v) :
    (write v current path text).2.isNone = (write t current path text).2.isNone := by
  by_cases hwritable : t.Writable current path
  · obtain ⟨s, p, hready, htarget⟩ := hwritable
    rw [write_of_ready hready htarget] at hgrown ⊢
    rw [(write_again hcurrent hfree hready htarget hgrown).2]
  · obtain ⟨f, hagain⟩ := refuse_again hcurrent hfree hwritable hgrown
    obtain ⟨s, f', -, hwrite⟩ := write_of_not_writable hwritable text
    rw [hagain, hwrite]
    rfl

/-- Two reports that are attempted again, one after the other, leave what they left before. -/
theorem writes_again {path' : String} (hfree' : t.Direct current path') (text text' : List Char) :
    let once := write t current path text
    let both := write once.1 current path' text'
    let again := write both.1 current path text
    again.2.isNone = once.2.isNone ∧ (write again.1 current path' text').1 = both.1 := by
  intro once both again
  have honce : Grown t once.1 := (attempt_write t current path text).grown
  have hboth := attempt_write once.1 current path' text'
  have hagain := attempt_write both.1 current path text
  refine ⟨isNone_write_again hcurrent hfree hboth.grown, ?_⟩
  exact write_restores (honce.directory current hcurrent) (hfree'.grown honce) hagain.grown
    (write_after hcurrent hfree hboth)

end Again

end Report

end EndpointAtlas
