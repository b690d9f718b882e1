import EndpointAtlas.Usage
import EndpointAtlas.Proofs.Repetition
import EndpointAtlas.Proofs.Scan

/-!
# What a report does to the files around it

Without links, the names of a path tell which places it goes through and where it ends. An attempt to
write a report takes at most those places: it makes directories on the way and puts a file at the end.
It is refused if there is a file on the way, or a directory at the end.
-/

namespace EndpointAtlas

namespace FileTree

variable {t u s : FileTree} {here current p q : Place} {path above name : String}
  {names rest between after : List String} {fuel : Nat}

/-! ### The places on a way -/

/-- The places that names lead through, without the one they lead to. -/
def stops : Place → List String → List Place
  | _, [] => []
  | here, name :: rest => here :: stops (advance here name) rest

theorem stops_append : stops here (names ++ rest) =
    stops here names ++ stops (names.foldl advance here) rest := by
  induction names generalizing here with
  | nil => rfl
  | cons name names ih => rw [List.cons_append, stops, stops, ih, List.foldl_cons, List.cons_append]

theorem mem_stops_self (hne : names ≠ []) : here ∈ stops here names := by
  obtain ⟨name, rest, rfl⟩ := List.exists_cons_of_ne_nil hne
  exact List.mem_cons_self

/-- Names that lead somewhere lead through directories. -/
theorem isDirectory_of_mem_stops (hwalk : t.walk true 0 here names = .ok p) (hq : q ∈ stops here names) :
    t.isDirectory q := by
  rw [walk] at hwalk
  induction names generalizing here with
  | nil => cases hq
  | cons name names ih =>
      obtain ⟨hdir, hstep⟩ := walkWith_cons_iff.1 hwalk
      obtain rfl | hq := List.mem_cons.1 hq
      · exact hdir
      cases hstep with
      | stay h => exact ih h hq
      | up h => exact ih h hq
      | link _ _ _ herror => cases herror
      | down hdot hup _ _ h =>
          rw [advance_of_ne hdot hup] at hq
          exact ih h hq
      | free _ _ _ hnames _ =>
          subst hnames
          cases hq

/-- Where names lead through no file, they lead somewhere, or something is missing. -/
theorem walk_of_no_file (hfree : t.LinkFree here names) (hhere : names ≠ [] → t.isDirectory here)
    (hfiles : ∀ q ∈ stops here names, ∀ content, t.get? q ≠ some (.file content)) :
    t.walk true 0 here names = .error .notFound ∨ ∃ p, t.walk true 0 here names = .ok p := by
  rw [walk]
  induction names generalizing here with
  | nil => exact Or.inr ⟨here, by rw [walkWith]⟩
  | cons name names ih =>
      have hdir := hhere (List.cons_ne_nil name names)
      have hrest := fun hthere => ih hfree.2 hthere fun q hq => hfiles q (List.mem_cons_of_mem here hq)
      have hlink := hfree.get?_ne
      by_cases hdot : name = "."
      · subst hdot
        rw [walkWith_dot hdir]
        exact hrest fun _ => hdir
      by_cases hup : name = ".."
      · subst hup
        rw [walkWith_up hdir]
        exact hrest fun _ => isDirectory_dropLast hdir
      rw [advance_of_ne hdot hup] at hrest hlink
      cases hentry : t.get? (here ++ [name]) with
      | none =>
          rw [walkWith_free hdir hdot hup hentry]
          by_cases hnames : names.isEmpty
          · exact Or.inr ⟨_, if_pos hnames⟩
          · exact Or.inl (if_neg hnames)
      | some e =>
          have hplain : ∀ target, e ≠ .link target := fun target heq => hlink target (heq ▸ hentry)
          rw [walkWith_down hdir hdot hup hentry hplain]
          refine hrest fun hnames => ?_
          have hmem : here ++ [name] ∈ stops here (name :: names) := by
            rw [stops, advance_of_ne hdot hup]
            exact List.mem_cons_of_mem here (mem_stops_self hnames)
          rw [isDirectory_iff]
          cases e with
          | file content => exact absurd hentry (hfiles _ hmem content)
          | directory => exact hentry
          | link target => exact absurd rfl (hplain target)

/-! ### The way of a path -/

/-- The places that a path goes through, as far as its names tell. -/
def way (current : Place) (path : String) : List Place := stops (start current path) (stepsOf path)

/-- Where a path ends, as far as its names tell. -/
def destination (current : Place) (path : String) : Place :=
  (stepsOf path).foldl advance (start current path)

/-- Whether a path comes to a place, on its way or at its end. -/
def Visits (current : Place) (path : String) (p : Place) : Prop :=
  p ∈ way current path ∨ p = destination current path

theorem destination_of_walk (hwalk : t.walk true 0 (start current path) (stepsOf path) = .ok p) :
    p = destination current path :=
  eq_foldl_advance hwalk

/-- What the path above comes to is on the way. -/
theorem Continues.mem_way (h : Continues above path name between after) (hq : Visits current above q) :
    q ∈ way current path := by
  unfold way
  rw [h.steps, stops_append, List.mem_append, ← h.start_eq]
  obtain hq | rfl := hq
  · exact Or.inl hq
  · exact Or.inr (mem_stops_self (by simp))

/-- A path that ends with `.` goes through the place it ends at. -/
theorem destination_mem_way (hsteps : stepsOf path = names ++ ["."]) :
    destination current path ∈ way current path := by
  unfold destination way
  rw [hsteps, stops_append, List.foldl_append]
  exact List.mem_append_right _ List.mem_cons_self

theorem exists_stepsOf_of_slash (hslash : path.toList.getLast? = some '/') (hsteps : stepsOf path ≠ []) :
    ∃ names, stepsOf path = names ++ ["."] := by
  obtain ⟨cs, hcs⟩ := List.getLast?_eq_some_iff.1 hslash
  have hpieces : (Path.pieces path.toList).getLast? = some [] := by
    rw [hcs, Path.pieces_append_slash]
    simp [Path.pieces]
  unfold stepsOf at hsteps ⊢
  dsimp only at hsteps ⊢
  rw [hpieces] at hsteps ⊢
  split
  · exact ⟨_, rfl⟩
  · next hnone =>
    rw [if_neg hnone] at hsteps
    exact absurd (by simpa using hsteps) hnone

section Tail

variable (hmem : destination current path ∉ way current path)

include hmem

/-- After the last name of a path that does not go through its end there is nothing. -/
theorem Continues.after_eq_nil (h : Continues above path name between after) : after = [] := by
  by_contra hafter
  obtain ⟨dots, dot, rfl⟩ := List.eq_nil_or_concat' after |>.resolve_left hafter
  have hsteps : stepsOf path = (stepsOf above ++ (between ++ name :: dots)) ++ ["."] := by
    rw [h.steps, h.after_name dot (by simp)]
    simp
  exact hmem (destination_mem_way hsteps)

theorem getLast?_ne_slash (hsteps : stepsOf path ≠ []) : path.toList.getLast? ≠ some '/' := by
  intro hslash
  obtain ⟨names, hnames⟩ := exists_stepsOf_of_slash hslash hsteps
  exact hmem (destination_mem_way hnames)

end Tail

/-! ### Directories on the way -/

theorem Furnished.eq_directory {e : Entry} (h : Furnished t u) (hnone : t.get? p = none)
    (hentry : u.get? p = some e) : e = .directory := by
  by_contra hplain
  rw [h.get?_of_ne_directory hentry hplain] at hnone
  cases hnone

theorem eq_of_get?_put {e : Entry} (hnone : t.get? q = none) (htaken : (t.put p e).get? q ≠ none) :
    q = p := by
  by_cases haccepts : t.accepts p
  · rw [get?_put haccepts] at htaken
    by_contra hne
    rw [if_neg hne] at htaken
    exact htaken hnone
  · unfold put at htaken
    rw [dif_neg haccepts] at htaken
    exact absurd hnone htaken

theorem eq_destination_of_ensureDirectory (hfree : t.Direct current path) (hne : path ≠ "")
    (hnone : t.get? q = none) (htaken : (t.ensureDirectory current path).1.get? q ≠ none) :
    q = destination current path := by
  cases hwalk : t.walk true 0 (start current path) (stepsOf path) with
  | error f =>
      rw [ensureDirectory_of_error hfree hne hwalk] at htaken
      exact absurd hnone htaken
  | ok p =>
      cases hentry : t.get? p with
      | some e =>
          rw [ensureDirectory_of_taken hfree hne hwalk hentry] at htaken
          exact absurd hnone htaken
      | none =>
          rw [ensureDirectory_of_free hfree hne hwalk hentry] at htaken
          rw [eq_of_get?_put hnone htaken]
          exact destination_of_walk hwalk

/-- Making directories takes no place but those that the path comes to. -/
theorem visits_of_ensureDirectories (hfree : t.Direct current path) (hnone : t.get? q = none)
    (htaken : (ensureDirectories current fuel t path).1.get? q ≠ none) : Visits current path q := by
  -- Along the paths above: what one of them comes to is on the way of the next.
  induction fuel generalizing path with
  | zero => exact absurd hnone htaken
  | succ fuel ih =>
      by_cases hne : path = ""
      · subst hne
        exact absurd hnone htaken
      obtain ⟨s, fault, hmade⟩ : ∃ s fault, ensureDirectories current (fuel + 1) t path = (s, fault) :=
        ⟨_, _, rfl⟩
      rw [hmade] at htaken
      obtain ⟨hensure, -⟩ | ⟨above, hparent, -, hupper⟩ := ensureDirectories_cases hne hmade
      · refine Or.inr (eq_destination_of_ensureDirectory hfree hne hnone ?_)
        rwa [hensure]
      · obtain ⟨name, between, after, hcontinues⟩ := continues_of_parent? hparent
        have habove := ih (hcontinues.direct hfree)
        obtain ⟨f, -, hfailed⟩ | ⟨u, hdone, hensure⟩ := hupper
        · rw [hfailed] at habove
          exact Or.inl (hcontinues.mem_way (habove htaken))
        · have hgrown := (furnished_ensureDirectories current fuel t above).grown
          rw [hdone] at hgrown habove
          by_cases hfirst : u.get? q = none
          · refine Or.inr (eq_destination_of_ensureDirectory (hfree.grown hgrown) hne hfirst ?_)
            rwa [hensure]
          · exact Or.inl (hcontinues.mem_way (habove hfirst))

/-- A directory is made, or was there, unless a file stands in its place. -/
theorem ensureDirectory_of_no_file (hcurrent : t.isDirectory current) (hfree : t.Direct current path)
    (hne : path ≠ "") (hwalk : t.walk true 0 (start current path) (stepsOf path) = .ok p)
    (hfile : ∀ content, t.get? p ≠ some (.file content)) :
    ∃ u, t.ensureDirectory current path = (u, none) := by
  cases hentry : t.get? p with
  | none => exact ⟨_, ensureDirectory_of_free hfree hne hwalk hentry⟩
  | some e =>
      have hdir : t.isDirectory p := by
        obtain hdir | ⟨-, hlink⟩ := settled_of_walk (isDirectory_start hcurrent path) hwalk
        · exact hdir
        · cases e with
          | file content => exact absurd hentry (hfile content)
          | directory => exact isDirectory_iff.2 hentry
          | link target => exact absurd hentry (hlink target)
      exact ⟨t, ensureDirectory_of_opens hfree hne ⟨p, hwalk, hdir⟩⟩

/-- Only a file that a path comes to keeps directories from being made. -/
theorem ensureDirectories_of_no_file (hcurrent : t.isDirectory current) (hfree : t.Direct current path)
    (htidy : Tidy path) (hfuel : (stepsOf path).length < fuel)
    (hfiles : ∀ q, Visits current path q → ∀ content, t.get? q ≠ some (.file content)) :
    ∃ s, ensureDirectories current fuel t path = (s, none) := by
  -- Along the paths above, until one of them leads somewhere.
  induction fuel generalizing path with
  | zero => exact absurd hfuel (Nat.not_lt_zero _)
  | succ fuel ih =>
      by_cases hne : path = ""
      · subst hne
        exact ⟨t, rfl⟩
      obtain hwalk | ⟨p, hwalk⟩ := walk_of_no_file hfree (fun _ => isDirectory_start hcurrent path)
        fun q hq => hfiles q (Or.inl hq)
      · have hmissing := ensureDirectory_of_error hfree hne hwalk
        cases hparent : Path.parent? path with
        | none =>
            have hopens : t.Opens current path := opens_of_parent?_eq_none hparent hne
            obtain ⟨p, hplace, -⟩ := hopens
            rw [hplace] at hwalk
            cases hwalk
        | some above =>
            obtain ⟨name, between, after, hcontinues⟩ := continues_of_parent? hparent
            cases hcontinues.tidy htidy
            obtain ⟨habove, -, -⟩ := above_of_parent? hparent
            have hdirect := hcontinues.direct hfree
            have hshorter : (stepsOf above).length < fuel :=
              Nat.lt_of_lt_of_le hcontinues.length_lt (Nat.le_of_lt_succ hfuel)
            obtain ⟨s, hmade⟩ := ih hdirect habove hshorter
              fun q hq => hfiles q (Or.inl (hcontinues.mem_way hq))
            rw [ensureDirectories_of_missing hne hmissing hparent, hmade]
            have hopens := opens_of_ensureDirectories hcurrent hdirect hmade
            have hfurnished := furnished_ensureDirectories current fuel t above
            rw [hmade] at hfurnished
            have hgrown : Grown t s := hfurnished.grown
            refine ensureDirectory_of_no_file (hgrown.directory current hcurrent) (hfree.grown hgrown) hne
              (hcontinues.walk_eq (hfree.grown hgrown) hopens) ?_
            intro content hfile
            exact hfiles _ (Or.inr rfl) content (hfurnished.get?_of_ne_directory hfile (by simp))
      · obtain ⟨s, hensure⟩ := ensureDirectory_of_no_file hcurrent hfree hne hwalk
          (hfiles p (Or.inr (destination_of_walk hwalk)))
        exact ⟨s, by rw [ensureDirectories_of_last hne (by simp [hensure]), hensure]⟩

theorem mem_way_of_makeDirectories (hparent : Path.parent? path = some above)
    (hfree : t.Direct current path) (hnone : t.get? q = none)
    (htaken : (t.makeDirectories current above).1.get? q ≠ none) : q ∈ way current path := by
  obtain ⟨name, between, after, hcontinues⟩ := continues_of_parent? hparent
  exact hcontinues.mem_way (visits_of_ensureDirectories (hcontinues.direct hfree) hnone htaken)

theorem Readies.mem_way (h : t.Readies current path s) (hfree : t.Direct current path)
    (hnone : t.get? q = none) (htaken : s.get? q ≠ none) : q ∈ way current path := by
  cases hparent : Path.parent? path with
  | none =>
      rw [(readies_iff_of_none hparent).1 h] at htaken
      exact absurd hnone htaken
  | some above =>
      refine mem_way_of_makeDirectories hparent hfree hnone ?_
      rwa [(readies_iff_of_some hparent).1 h]

/-! ### What keeps a file from being written -/

/-- Whether there is a file on the way of a path, or a directory where it ends: one that is there, or one
that would be made because the path goes on from it. -/
def Blocked (t : FileTree) (current : Place) (path : String) : Prop :=
  (∃ q ∈ way current path, (t.get? q).any Entry.isFile) ∨ t.isDirectory (destination current path) ∨
    destination current path ∈ way current path

instance (t : FileTree) (current : Place) (path : String) : Decidable (t.Blocked current path) :=
  inferInstanceAs (Decidable (_ ∨ _ ∨ _))

theorem not_blocked_iff : ¬ t.Blocked current path ↔
    (∀ q ∈ way current path, ∀ content, t.get? q ≠ some (.file content)) ∧
      ¬ t.isDirectory (destination current path) ∧
      destination current path ∉ way current path := by
  have hfile (q : Place) : (t.get? q).any Entry.isFile ↔ ∃ content, t.get? q = some (.file content) := by
    cases hentry : t.get? q with
    | none => simp
    | some e => cases e <;> simp [Entry.isFile]
  rw [Blocked, not_or, not_or]
  simp only [hfile, not_exists, not_and, Ne]

theorem not_blocked_of_writable (hfree : t.Direct current path) (hwritable : t.Writable current path) :
    ¬ t.Blocked current path := by
  obtain ⟨s, p, hready, htarget⟩ := hwritable
  have hne : path ≠ "" := by
    rintro rfl
    cases htarget
  have hfurnished := hready.furnished
  obtain ⟨-, hwalk, hplain⟩ := (target_iff (hfree.grown hfurnished.grown) hne).1 htarget
  cases destination_of_walk hwalk
  refine not_blocked_iff.2 ⟨?_, fun hdir => hplain (hfurnished.grown.directory _ hdir),
    fun hmem => hplain (isDirectory_of_mem_stops hwalk hmem)⟩
  intro q hq content hfile
  have hdir := isDirectory_iff.1 (isDirectory_of_mem_stops hwalk hq)
  rw [hfurnished.get?_of_some hfile] at hdir
  cases hdir

theorem writable_of_not_blocked (hcurrent : t.isDirectory current) (hfree : t.Direct current path)
    (hblocked : ¬ t.Blocked current path) : t.Writable current path := by
  obtain ⟨hfiles, hdir, hmem⟩ := not_blocked_iff.1 hblocked
  have hne : path ≠ "" := by
    rintro rfl
    exact hdir hcurrent
  cases hparent : Path.parent? path with
  | none =>
      have hopens : t.Opens current path := opens_of_parent?_eq_none hparent hne
      obtain ⟨p, hwalk, htop⟩ := hopens
      rw [destination_of_walk hwalk] at htop
      exact absurd htop hdir
  | some above =>
      obtain ⟨name, between, after, hcontinues⟩ := continues_of_parent? hparent
      cases hcontinues.after_eq_nil hmem
      obtain ⟨htidy, hlength, -⟩ := above_of_parent? hparent
      obtain ⟨s, hmade⟩ := ensureDirectories_of_no_file hcurrent (hcontinues.direct hfree) htidy
        (Nat.lt_succ_of_le hlength) fun q hq => hfiles q (hcontinues.mem_way hq)
      have hready := (readies_iff_of_some hparent).2 hmade
      have hfree' := hfree.grown hready.furnished.grown
      have hwalk := hcontinues.walk_eq hfree' (opens_of_makeDirectories hparent hfree hcurrent hmade)
      have hslash := getLast?_ne_slash hmem (by simp [hcontinues.steps])
      refine ⟨s, _, hready, (target_iff hfree' hne).2 ⟨hslash, hwalk, ?_⟩⟩
      -- A directory that was made is on the way, where the end is not.
      intro hdir'
      obtain hsame | ⟨hnone, hnew⟩ := hready.furnished (destination current path)
      · exact hdir (by rwa [isDirectory_iff, ← hsame, ← isDirectory_iff])
      · exact hmem (hready.mem_way hfree hnone (by simp [hnew]))

theorem writable_iff_not_blocked (hcurrent : t.isDirectory current) (hfree : t.Direct current path) :
    t.Writable current path ↔ ¬ t.Blocked current path :=
  ⟨not_blocked_of_writable hfree, writable_of_not_blocked hcurrent hfree⟩

/-- Nothing is there yet, but the directory to come back from is made first. -/
example : FileTree.empty.Blocked [] "new/../new" := by decide

/-! ### Trees without links -/

/-- Whether there are no links in a tree. -/
def Linkless (t : FileTree) : Prop := ∀ e ∈ t.entries.values, !e.isLink

instance (t : FileTree) : Decidable t.Linkless :=
  inferInstanceAs (Decidable (∀ e ∈ _, _))

theorem Linkless.isLink_of_get? {e : Entry} (h : t.Linkless) (hentry : t.get? p = some e) : !e.isLink := by
  unfold get? entryIn at hentry
  split at hentry
  · cases hentry
    rfl
  · exact h e (List.mem_map.2 ⟨(p, e), SortedMap.get?_eq_some_iff.1 hentry, rfl⟩)

theorem Linkless.linkFree (h : t.Linkless) (here : Place) (names : List String) :
    t.LinkFree here names := by
  induction names generalizing here with
  | nil => trivial
  | cons name names ih =>
      refine ⟨?_, ih _⟩
      rw [Option.all_eq_true]
      intro e hentry
      exact h.isLink_of_get? hentry

end FileTree

namespace Report

open FileTree

variable {t u s : FileTree} {p q current : Place} {path : String} {text : List Char}

/-- What an attempt to write a report under a path does to a tree, and when it fails. -/
structure Effects (t : FileTree) (current : Place) (path : String) (text : List Char)
    (outcome : FileTree × Option ReportFailure) : Prop where
  /-- A report that was written is the whole of the file at the end of the path. -/
  written : outcome.2 = none → outcome.1.find current path = .ok (.file (bytes text)) ∧
    outcome.1.get? (destination current path) = some (.file (bytes text))
  /-- Everything else is as it was, and without a report everything is. -/
  kept : ∀ q e, t.get? q = some e → (outcome.2 = none → q ≠ destination current path) →
    outcome.1.get? q = some e
  /-- What else there is now are directories on the way. -/
  made : ∀ q e, t.get? q = none → outcome.1.get? q = some e →
    (outcome.2 = none → q ≠ destination current path) → e = .directory ∧ q ∈ way current path
  fails_iff : t.isDirectory current → (outcome.2 ≠ none ↔ t.Blocked current path)

theorem effects_of_written (hfree : t.Direct current path) (hready : t.Readies current path s)
    (htarget : s.target current path = .ok p) :
    Effects t current path text (s.put p (.file (bytes text)), none) := by
  have hne : path ≠ "" := by
    rintro rfl
    cases htarget
  have hfurnished := hready.furnished
  have haccepts := (accepts_of_target htarget).1
  obtain ⟨-, hwalk, -⟩ := (target_iff (hfree.grown hfurnished.grown) hne).1 htarget
  cases destination_of_walk hwalk
  have hgrown : Grown s (s.put (destination current path) (.file (bytes text))) :=
    grown_of_target htarget
  have hplace := place_grown hgrown (place_of_target htarget).1
  have hfile : (s.put (destination current path) (.file (bytes text))).get? (destination current path) =
      some (.file (bytes text)) := by
    rw [get?_put haccepts, if_pos rfl]
  refine ⟨fun _ => ⟨find_of_leads hplace hfile, hfile⟩, ?_, ?_, fun _ => ?_⟩
  · intro q e hentry hq
    rw [get?_put haccepts, if_neg (hq rfl)]
    exact hfurnished.get?_of_some hentry
  · intro q e hnone hentry hq
    rw [get?_put haccepts, if_neg (hq rfl)] at hentry
    exact ⟨hfurnished.eq_directory hnone hentry, hready.mem_way hfree hnone (by simp [hentry])⟩
  · have hblocked := not_blocked_of_writable hfree ⟨s, _, hready, htarget⟩
    exact ⟨fun h => absurd rfl h, fun h => absurd h hblocked⟩

theorem effects_of_refused {failure : ReportFailure} (hfree : t.Direct current path)
    (hrefused : ¬ t.Writable current path) (hfurnished : t.Furnished u)
    (hway : ∀ q, t.get? q = none → u.get? q ≠ none → q ∈ way current path) :
    Effects t current path text (u, some failure) where
  written h := by cases h
  kept q e hentry _ := hfurnished.get?_of_some hentry
  made q e hnone hentry _ :=
    ⟨hfurnished.eq_directory hnone hentry, hway q hnone (by simp [hentry])⟩
  fails_iff hcurrent := by
    rw [writable_iff_not_blocked hcurrent hfree, not_not] at hrefused
    exact ⟨fun _ => hrefused, fun _ => by simp⟩

theorem mem_way_of_refused (hfree : t.Direct current path) (hrefused : ¬ t.Writable current path)
    (text : List Char) (hnone : t.get? q = none) (htaken : (write t current path text).1.get? q ≠ none) :
    q ∈ way current path := by
  obtain ⟨s, hready⟩ | ⟨above, s, f, hparent, hmade⟩ := readies_cases t current path
  · cases htarget : s.target current path with
    | ok p => exact absurd ⟨s, p, hready, htarget⟩ hrefused
    | error f =>
        rw [write_of_ready_error hready htarget] at htaken
        exact hready.mem_way hfree hnone htaken
  · rw [write_of_unready hparent hmade] at htaken
    refine mem_way_of_makeDirectories hparent hfree hnone ?_
    rwa [hmade]

/-- Where no link is on the way, every report has these effects. -/
theorem effects_of_direct (hfree : t.Direct current path) (text : List Char) :
    Effects t current path text (write t current path text) := by
  by_cases hwritable : t.Writable current path
  · obtain ⟨s, p, hready, htarget⟩ := hwritable
    rw [write_of_ready hready htarget]
    exact effects_of_written hfree hready htarget
  · have hway := fun q => mem_way_of_refused (q := q) hfree hwritable text
    obtain ⟨u, f, hfurnished, hwrite⟩ := write_of_not_writable hwritable text
    rw [hwrite] at hway ⊢
    exact effects_of_refused hfree hwritable hfurnished hway

/-- In a tree without links, the reports of every inventory and of every usage have these effects. -/
theorem effects_write (hlinks : t.Linkless) (current : Place) (path : String) :
    (∀ i : Inventory, Effects t current path i.toJson (write t current path i.toJson)) ∧
      ∀ u : Usage, Effects t current path u.toJson (write t current path u.toJson) := by
  have hfree : t.Direct current path := hlinks.linkFree _ _
  exact ⟨fun i => effects_of_direct hfree i.toJson, fun u => effects_of_direct hfree u.toJson⟩

/-- A longer file is overwritten, past a directory that is made only to be left again, and another file
keeps the directories below it from being made. -/
theorem effects_write_longer :
    let longer : Entry := .file (List.replicate 40 0x2a)
    let t := (FileTree.empty.plant ["keep"] (.file [0x78])).plant ["out", "usage.json"] longer
    let u : Usage := ⟨.ofList [("User", 1)]⟩
    let reported := (write t [] "new/../out/usage.json" u.toJson).1
    let refused := write t [] "keep/out/usage.json" u.toJson
    t.Linkless ∧ reported.find [] "new/../out/usage.json" = .ok (.file (bytes u.toJson)) ∧
      reported.get? ["keep"] = some (.file [0x78]) ∧ reported.isDirectory ["new"] ∧
      refused.2 ≠ none ∧ refused.1.get? ["keep"] = some (.file [0x78]) ∧
      refused.1.get? ["out", "usage.json"] = some longer := by
  intro longer t u reported refused
  have hlinks : t.Linkless := by decide
  have hreported := (effects_write hlinks [] "new/../out/usage.json").2 u
  have hrefused := (effects_write hlinks [] "keep/out/usage.json").2 u
  have hwritten : (write t [] "new/../out/usage.json" u.toJson).2 = none :=
    not_not.1 (mt (hreported.fails_iff rfl).1 (by decide))
  have hfails := (hrefused.fails_iff rfl).2 (by decide)
  exact ⟨hlinks, (hreported.written hwritten).1,
    hreported.kept ["keep"] _ (by decide) (fun _ => by decide), by decide +kernel, hfails,
    hrefused.kept ["keep"] _ (by decide) (fun h => absurd h hfails),
    hrefused.kept ["out", "usage.json"] _ (by decide) (fun h => absurd h hfails)⟩

end Report

end EndpointAtlas
