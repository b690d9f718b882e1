import EndpointAtlas.Files.Path
import EndpointAtlas.Proofs.Dotted

/-!
# Paths, component by component

Paths are compared by their components and not by their text, so that a slash comes before every other
character. A name put at the end of a path adds one component and leaves the others alone.
-/

namespace EndpointAtlas.Path

open Text

/-! ### File names and their extensions -/

/-- A name `stem.ext` with something before its last dot and one of the extensions after it. -/
def HasForm (name : String) (extensions : List String) : Prop :=
  ∃ stem ext : List Char, name.toList = stem ++ '.' :: ext ∧ stem ≠ [] ∧ '.' ∉ ext ∧
    String.ofList ext ∈ extensions

theorem nameHasExtension_iff {name : String} {extensions : List String} :
    nameHasExtension name.toList extensions ↔ HasForm name extensions := by
  rw [nameHasExtension, extensionOf]
  constructor
  · intro h
    cases hsplit : splitLastDot name.toList with
    | none => simp [hsplit] at h
    | some cut =>
        obtain ⟨stem, ext⟩ := cut
        obtain ⟨hname, hext⟩ := splitLastDot_eq_some_iff.1 hsplit
        cases stem with
        | nil => simp [hsplit] at h
        | cons c stem =>
            simp only [hsplit, List.isEmpty_cons, Bool.false_eq_true, ↓reduceIte] at h
            exact ⟨c :: stem, ext, hname, List.cons_ne_nil c stem, hext, List.contains_iff_mem.1 h⟩
  · rintro ⟨stem, ext, hname, hstem, hext, hmem⟩
    simp [hname, splitLastDot_append stem hext, hstem, hmem]

/-! ### A name at the end of a path -/

/-- What something in a directory can be called. -/
structure IsName (name : String) : Prop where
  nonempty : name ≠ ""
  not_dot : name ≠ "."
  not_up : name ≠ ".."
  no_slash : '/' ∉ name.toList

instance (name : String) : Decidable (IsName name) :=
  decidable_of_iff (name ≠ "" ∧ name ≠ "." ∧ name ≠ ".." ∧ '/' ∉ name.toList)
    ⟨fun ⟨h, hdot, hup, hslash⟩ => ⟨h, hdot, hup, hslash⟩,
      fun ⟨h, hdot, hup, hslash⟩ => ⟨h, hdot, hup, hslash⟩⟩

theorem pieces_eq_splitOn (cs : List Char) : pieces cs = cs.splitOn '/' := by
  induction cs with
  | nil => rfl
  | cons c cs ih =>
      rw [pieces, ih, List.splitOn_cons_eq_if_modifyHead]
      by_cases hc : c = '/'
      · rw [if_pos hc, if_pos (beq_iff_eq.2 hc)]
      · rw [if_neg hc, if_neg (by simpa using hc)]
        cases hsplit : cs.splitOn '/' with
        | nil => exact absurd hsplit (List.splitOn_ne_nil '/' cs)
        | cons piece pieces => rfl

theorem pieces_append_slash (cs ds : List Char) :
    pieces (cs ++ '/' :: ds) = pieces cs ++ pieces ds := by
  rw [pieces_eq_splitOn, pieces_eq_splitOn, pieces_eq_splitOn, List.splitOn_append_cons_self]

theorem pieces_of_notMem {cs : List Char} (h : '/' ∉ cs) : pieces cs = [cs] := by
  rw [pieces_eq_splitOn, List.splitOn_eq_singleton h]

section Join

variable {directory name : String}

theorem IsName.isAbsolute (h : IsName name) : isAbsolute name = false := by
  have hslash := h.no_slash
  rw [Path.isAbsolute]
  cases hname : name.toList with
  | nil => rfl
  | cons c cs =>
      rw [hname, List.mem_cons, not_or] at hslash
      simpa using Ne.symm hslash.1

theorem IsName.isStep (h : IsName name) (index : Nat) : isStep index name.toList := by
  have hempty : name.toList ≠ [] := by
    rw [Ne, String.toList_eq_nil_iff]
    exact h.nonempty
  have hdot : name.toList ≠ ['.'] := fun heq => h.not_dot (String.toList_inj.1 heq)
  simp [Path.isStep, hempty, hdot]

/-- The name comes last, after the pieces of the directory without a slash at its end. -/
theorem pieces_join (hdirectory : directory ≠ "") (hname : IsName name) :
    ∃ before, pieces (join directory name).toList = before ++ [name.toList] ∧
      (pieces directory.toList = before ∨ pieces directory.toList = before ++ [[]]) := by
  have hlast := pieces_of_notMem hname.no_slash
  have hempty : directory.isEmpty = false := by
    rwa [Bool.eq_false_iff, Ne, String.isEmpty_iff]
  rw [join, hname.isAbsolute, hempty, Bool.false_or, if_neg Bool.false_ne_true]
  split
  · next hslash =>
    obtain ⟨cs, hcs⟩ := List.getLast?_eq_some_iff.1 (eq_of_beq hslash)
    refine ⟨pieces cs, ?_, Or.inr ?_⟩
    · rw [String.toList_append, hcs, List.append_assoc, List.singleton_append,
        pieces_append_slash, hlast]
    · rw [hcs, pieces_append_slash, pieces]
  · refine ⟨pieces directory.toList, ?_, Or.inl rfl⟩
    rw [String.toList_append, String.toList_append, List.append_assoc, ← hlast,
      ← pieces_append_slash]
    rfl

theorem join_ne_empty (hdirectory : directory ≠ "") (hname : IsName name) :
    join directory name ≠ "" := by
  intro hjoin
  obtain ⟨before, hpieces, -⟩ := pieces_join hdirectory hname
  rw [hjoin] at hpieces
  have hlast := congrArg List.getLast? hpieces
  rw [List.getLast?_concat] at hlast
  exact hname.nonempty (String.toList_eq_nil_iff.1 (Option.some.inj hlast).symm)

theorem isAbsolute_join (hdirectory : directory ≠ "") (hname : IsName name) :
    isAbsolute (join directory name) = isAbsolute directory := by
  have hhead (text : String) : isAbsolute (directory ++ text) = isAbsolute directory := by
    rw [isAbsolute, isAbsolute, String.toList_append]
    cases hcs : directory.toList with
    | nil => exact absurd (String.toList_eq_nil_iff.1 hcs) hdirectory
    | cons c cs => rfl
  rw [join, hname.isAbsolute, if_neg Bool.false_ne_true]
  split
  · exact hhead name
  · rw [String.append_assoc]
    exact hhead _

theorem upToLast_concat {p : Nat → List Char → Bool} {x : List Char} {n : Nat}
    {xs : List (List Char)} (h : p (n + xs.length) x) : upToLast p n (xs ++ [x]) = xs ++ [x] := by
  induction xs generalizing n with
  | nil => simpa [upToLast] using h
  | cons y xs ih =>
      rw [List.length_cons, ← Nat.add_assoc, Nat.add_right_comm] at h
      rw [List.cons_append, upToLast, ih h]
      split
      · next hnil => simp at hnil
      · rfl

theorem fileName?_of_last {path : String}
    (hlast : (upToLast isStep 0 (pieces path.toList)).getLast? = some name.toList)
    (hdot : name ≠ ".") (hup : name ≠ "..") : fileName? path = some name.toList := by
  have hdot' : name.toList ≠ ['.'] := fun heq => hdot (String.toList_inj.1 heq)
  have hup' : name.toList ≠ ['.', '.'] := fun heq => hup (String.toList_inj.1 heq)
  rw [fileName?, hlast]
  simp [hdot', hup']

theorem fileName?_join (hdirectory : directory ≠ "") (hname : IsName name) :
    fileName? (join directory name) = some name.toList := by
  obtain ⟨before, hpieces, -⟩ := pieces_join hdirectory hname
  apply fileName?_of_last _ hname.not_dot hname.not_up
  rw [hpieces, upToLast_concat (hname.isStep _), List.getLast?_concat]

theorem hasExtension_join (hdirectory : directory ≠ "") (hname : IsName name)
    (extensions : List String) :
    hasExtension (join directory name) extensions = nameHasExtension name.toList extensions := by
  rw [hasExtension, fileName?_join hdirectory hname]

end Join

/-! ### Components -/

inductive Component where
  | root
  | current
  | parent
  | name (text : String)
  deriving DecidableEq

namespace Component

def rank : Component → Nat
  | root => 0
  | current => 1
  | parent => 2
  | name _ => 3

/-- The component that a piece stands for. -/
def ofPiece (piece : List Char) : Component :=
  if piece = ['.'] then current
  else if piece = ['.', '.'] then parent
  else name (.ofList piece)

/-- Names come last and are in their own order. -/
def before : Component → Component → Bool
  | name a, name b => decide (a < b)
  | a, b => decide (a.rank < b.rank)

instance : LT Component := ⟨fun a b => before a b⟩

instance : DecidableLT Component := fun a b => inferInstanceAs (Decidable (before a b = true))

theorem name_lt_name {a b : String} : name a < name b ↔ a < b := by
  change before (name a) (name b) ↔ a < b
  rw [before, decide_eq_true_iff]

theorem lt_irrefl (a : Component) : ¬ a < a := by
  cases a with
  | name text => exact fun h => Std.lt_irrefl (name_lt_name.1 h)
  | root => decide
  | current => decide
  | parent => decide

theorem append_lt_append_iff (cs : List Component) {as bs : List Component} :
    cs ++ as < cs ++ bs ↔ as < bs := by
  induction cs with
  | nil => rfl
  | cons c cs ih =>
      rw [List.cons_append, List.cons_append, List.cons_lt_cons_iff, ih]
      simp [lt_irrefl]

theorem map_name_lt_iff {as bs : List String} : as.map name < bs.map name ↔ as < bs := by
  induction as generalizing bs with
  | nil => cases bs <;> simp
  | cons a as ih =>
      cases bs with
      | nil => simp
      | cons b bs =>
          rw [List.map_cons, List.map_cons, List.cons_lt_cons_iff, List.cons_lt_cons_iff, ih,
            name_lt_name, name.injEq]

end Component

/-- The pieces of a path that lead somewhere. -/
def steps (path : String) : List (List Char) :=
  ((pieces path.toList).zipIdx.filter fun x => isStep x.2 x.1).map (·.1)

/-- What a path is compared by. -/
def components (path : String) : List Component :=
  (if isAbsolute path then [.root] else []) ++ (steps path).map .ofPiece

variable {directory name : String}

theorem steps_join (hdirectory : directory ≠ "") (hname : IsName name) :
    steps (join directory name) = steps directory ++ [name.toList] := by
  obtain ⟨before, hpieces, hdirectory⟩ := pieces_join hdirectory hname
  -- A slash at the end of the directory leaves an empty piece, which is no step.
  have hbefore : steps directory =
      (before.zipIdx.filter fun x => isStep x.2 x.1).map (·.1) := by
    rw [steps]
    cases hdirectory with
    | inl heq => rw [heq]
    | inr hslash =>
        rw [hslash, List.zipIdx_append]
        simp [isStep]
  rw [steps, hpieces, hbefore, List.zipIdx_append]
  simp [hname.isStep]

theorem components_join (hdirectory : directory ≠ "") (hname : IsName name) :
    components (join directory name) = components directory ++ [.name name] := by
  have hpiece : Component.ofPiece name.toList = .name name := by
    have hdot : name.toList ≠ ['.'] := fun heq => hname.not_dot (String.toList_inj.1 heq)
    have hup : name.toList ≠ ['.', '.'] := fun heq => hname.not_up (String.toList_inj.1 heq)
    rw [Component.ofPiece, if_neg hdot, if_neg hup, String.ofList_toList]
  rw [components, components, isAbsolute_join hdirectory hname, steps_join hdirectory hname,
    List.map_append, List.map_singleton, hpiece, List.append_assoc]

end EndpointAtlas.Path
