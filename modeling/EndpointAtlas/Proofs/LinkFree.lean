import EndpointAtlas.Proofs.FileTree
import EndpointAtlas.Proofs.PathParent

/-!
# Ways without links

Names that lead to a place can be cut anywhere, and the first part leads to a directory on the way.
Where no link stands on the way of a path, the place is told by the names alone.
-/

namespace EndpointAtlas

def Entry.isLink : Entry → Bool
  | .link _ => true
  | _ => false

namespace FileTree

variable {t u : FileTree} {here current p q : Place} {names rest : List String} {links : Nat}
  {above path name : String} {between after : List String}

/-! ### Names one after the other -/

section Step

variable {follow : Place → List String → Except Fault Place} {last : Bool}

theorem walkWith_of_not_isDirectory (hhere : ¬ t.isDirectory here) :
    walkWith follow t last here (name :: names) = .error .notDirectory := by
  rw [walkWith, if_pos (by simpa using hhere)]

theorem walkWith_dot (hhere : t.isDirectory here) :
    walkWith follow t last here ("." :: names) = walkWith follow t last here names := by
  rw [walkWith, if_neg (by simpa using hhere), if_pos (by rfl)]

theorem walkWith_up (hhere : t.isDirectory here) :
    walkWith follow t last here (".." :: names) = walkWith follow t last here.dropLast names := by
  rw [walkWith, if_neg (by simpa using hhere), if_neg (by decide), if_pos (by rfl)]

theorem walkWith_down {e : Entry} (hhere : t.isDirectory here) (hdot : name ≠ ".") (hup : name ≠ "..")
    (hentry : t.get? (here ++ [name]) = some e) (hplain : ∀ target, e ≠ .link target) :
    walkWith follow t last here (name :: names) =
      walkWith follow t last (here ++ [name]) names := by
  rw [walkWith, if_neg (by simpa using hhere), if_neg (by simpa using hdot),
    if_neg (by simpa using hup)]
  simp only [hentry]

theorem walkWith_free (hhere : t.isDirectory here) (hdot : name ≠ ".") (hup : name ≠ "..")
    (hnone : t.get? (here ++ [name]) = none) : walkWith follow t last here (name :: names) =
      if names.isEmpty then .ok (here ++ [name]) else .error .notFound := by
  rw [walkWith, if_neg (by simpa using hhere), if_neg (by simpa using hdot),
    if_neg (by simpa using hup)]
  simp only [hnone]

end Step

theorem walkWith_of_walk_zero (follow : Place → List String → Except Fault Place)
    (h : t.walk true 0 here names = .ok p) : walkWith follow t true here names = .ok p := by
  rw [walk] at h
  refine walkWith_grown (Grown.refl t) ?_ h
  intro _ _ herror
  cases herror

theorem walkWith_append {follow : Place → List String → Except Fault Place}
    (hfollow : ∀ start steps, follow start steps = .ok q → follow start (steps ++ rest) = .ok p)
    (hwalk : walkWith follow t true here names = .ok q) (hrest : t.walk true 0 q rest = .ok p) :
    walkWith follow t true here (names ++ rest) = .ok p := by
  induction names generalizing here with
  | nil =>
      rw [walkWith] at hwalk
      cases hwalk
      exact walkWith_of_walk_zero follow hrest
  | cons name names ih =>
      obtain ⟨hdir, hstep⟩ := walkWith_cons_iff.1 hwalk
      rw [List.cons_append, walkWith_cons_iff]
      refine ⟨hdir, ?_⟩
      cases hstep with
      | stay h => exact .stay (ih h)
      | up h => exact .up (ih h)
      | link hdot hup hentry h =>
          refine .link hdot hup hentry ?_
          rw [← List.append_assoc]
          exact hfollow _ _ h
      | down hdot hup hentry hplain h => exact .down hdot hup hentry hplain (ih h)
      | free hdot hup hnone hnames hq =>
          subst hnames hq
          cases rest with
          | nil =>
              cases hrest
              exact .free hdot hup hnone rfl rfl
          | cons next rest =>
              have hdir' := (walkWith_cons_iff.1 hrest).1
              rw [isDirectory_iff, hnone] at hdir'
              cases hdir'

theorem walk_append (hwalk : t.walk true links here names = .ok q)
    (hrest : t.walk true 0 q rest = .ok p) : t.walk true links here (names ++ rest) = .ok p := by
  induction links generalizing here names with
  | zero => exact walkWith_append (fun _ _ herror => nomatch herror) hwalk hrest
  | succ links ih => exact walkWith_append (fun _ _ => ih) hwalk hrest

theorem walkWith_split {follow : Place → List String → Except Fault Place}
    (hself : walkWith follow t true = t.walk true links) (hne : rest ≠ [])
    (hfollow : ∀ start steps, follow start (steps ++ rest) = .ok p → ∃ q l, l ≤ links ∧
      follow start steps = .ok q ∧ t.isDirectory q ∧ t.walk true l q rest = .ok p)
    (hwalk : walkWith follow t true here (names ++ rest) = .ok p) :
    ∃ q l, l ≤ links ∧ walkWith follow t true here names = .ok q ∧ t.isDirectory q ∧
      t.walk true l q rest = .ok p := by
  induction names generalizing here with
  | nil =>
      rw [List.nil_append] at hwalk
      refine ⟨here, links, Nat.le_refl _, by rw [walkWith], isDirectory_of_walkWith hne hwalk, ?_⟩
      rw [← hself]
      exact hwalk
  | cons name names ih =>
      rw [List.cons_append, walkWith_cons_iff] at hwalk
      obtain ⟨hdir, hstep⟩ := hwalk
      cases hstep with
      | stay h =>
          obtain ⟨q, l, hl, hnames, hrest⟩ := ih h
          exact ⟨q, l, hl, walkWith_cons_iff.2 ⟨hdir, .stay hnames⟩, hrest⟩
      | up h =>
          obtain ⟨q, l, hl, hnames, hrest⟩ := ih h
          exact ⟨q, l, hl, walkWith_cons_iff.2 ⟨hdir, .up hnames⟩, hrest⟩
      | link hdot hup hentry h =>
          rw [← List.append_assoc] at h
          obtain ⟨q, l, hl, hnames, hrest⟩ := hfollow _ _ h
          exact ⟨q, l, hl, walkWith_cons_iff.2 ⟨hdir, .link hdot hup hentry hnames⟩, hrest⟩
      | down hdot hup hentry hplain h =>
          obtain ⟨q, l, hl, hnames, hrest⟩ := ih h
          exact ⟨q, l, hl, walkWith_cons_iff.2 ⟨hdir, .down hdot hup hentry hplain hnames⟩, hrest⟩
      | free _ _ _ hend _ => exact absurd (List.append_eq_nil_iff.1 hend).2 hne

/-- The first part of a way leads to a directory, and the rest goes on from there. -/
theorem walk_split (hne : rest ≠ []) (hwalk : t.walk true links here (names ++ rest) = .ok p) :
    ∃ q l, l ≤ links ∧ t.walk true links here names = .ok q ∧ t.isDirectory q ∧
      t.walk true l q rest = .ok p := by
  induction links generalizing here names with
  | zero => exact walkWith_split rfl hne (fun _ _ herror => nomatch herror) hwalk
  | succ links ih =>
      refine walkWith_split rfl hne ?_ hwalk
      intro start steps h
      obtain ⟨q, l, hl, hrest⟩ := ih h
      exact ⟨q, l, Nat.le_succ_of_le hl, hrest⟩

theorem walk_dots_append (hhere : t.isDirectory here) (hdots : ∀ dot ∈ names, dot = ".") :
    t.walk true links here (names ++ rest) = t.walk true links here rest := by
  induction names with
  | nil => rfl
  | cons name names ih =>
      obtain ⟨rfl, hnames⟩ := List.forall_mem_cons.1 hdots
      rw [← ih hnames, List.cons_append]
      cases links <;> simp [walk, walkWith, hhere]

theorem walk_dots (hhere : t.isDirectory here) (hdots : ∀ dot ∈ names, dot = ".") :
    t.walk true links here names = .ok here := by
  rw [← List.append_nil names, walk_dots_append hhere hdots]
  cases links <;> rw [walk, walkWith]

/-- Only to a directory leads a way that ends with `.`. -/
theorem isDirectory_of_walk_dots (hne : rest ≠ []) (hdots : ∀ dot ∈ rest, dot = ".")
    (hwalk : t.walk true links here (names ++ rest) = .ok p) : t.isDirectory p := by
  obtain ⟨q, l, -, -, hdir, hrest⟩ := walk_split hne hwalk
  rw [walk_dots hdir hdots] at hrest
  cases hrest
  exact hdir

/-! ### No link on the way -/

/-- Where a name leads if no link stands there. -/
def advance (here : Place) (name : String) : Place :=
  if name = "." then here else if name = ".." then here.dropLast else here ++ [name]

/-- Whether no link stands on a way, as far as the names tell where it goes. -/
def LinkFree (t : FileTree) : Place → List String → Prop
  | _, [] => True
  | here, name :: rest =>
    (t.get? (advance here name)).all (fun e => !e.isLink) ∧ LinkFree t (advance here name) rest

instance decidableLinkFree (t : FileTree) :
    ∀ (here : Place) (names : List String), Decidable (t.LinkFree here names)
  | _, [] => isTrue trivial
  | here, name :: rest =>
    haveI := decidableLinkFree t (advance here name) rest
    inferInstanceAs (Decidable (_ ∧ _))

theorem linkFree_append {names : List String} :
    t.LinkFree here (names ++ rest) ↔
      t.LinkFree here names ∧ t.LinkFree (names.foldl advance here) rest := by
  induction names generalizing here with
  | nil => simp [LinkFree]
  | cons name names ih =>
      rw [List.cons_append, LinkFree, LinkFree, ih, List.foldl_cons, and_assoc]

theorem LinkFree.get?_ne (h : t.LinkFree here (name :: rest)) (target : String) :
    t.get? (advance here name) ≠ some (.link target) := by
  intro hlink
  have hfirst := h.1
  rw [hlink] at hfirst
  cases hfirst

theorem LinkFree.grown (h : t.LinkFree here names) (hgrown : Grown t u) : u.LinkFree here names := by
  induction names generalizing here with
  | nil => trivial
  | cons name names ih =>
      refine ⟨?_, ih h.2⟩
      cases hentry : u.get? (advance here name) with
      | none => rfl
      | some e =>
          cases e with
          | link target => exact absurd ((hgrown.link _ target).1 hentry) (h.get?_ne target)
          | file content => rfl
          | directory => rfl

theorem advance_dot (here : Place) : advance here "." = here := rfl

theorem advance_up (here : Place) : advance here ".." = here.dropLast := rfl

theorem advance_of_ne (hdot : name ≠ ".") (hup : name ≠ "..") : advance here name = here ++ [name] := by
  unfold advance
  rw [if_neg hdot, if_neg hup]

/-- Where no link stands on the way, it does not matter how links are followed. -/
theorem walkWith_of_linkFree {follow : Place → List String → Except Fault Place} {last : Bool}
    (hfree : t.LinkFree here names) :
    walkWith follow t last here names = t.walk true 0 here names := by
  induction names generalizing here with
  | nil => rw [walk, walkWith, walkWith]
  | cons name names ih =>
      have hrest := ih hfree.2
      have hlink := hfree.get?_ne
      rw [walk] at hrest ⊢
      by_cases hhere : t.isDirectory here
      · by_cases hdot : name = "."
        · subst hdot
          rwa [walkWith_dot hhere, walkWith_dot hhere]
        by_cases hup : name = ".."
        · subst hup
          rwa [walkWith_up hhere, walkWith_up hhere]
        rw [advance_of_ne hdot hup] at hrest hlink
        cases hentry : t.get? (here ++ [name]) with
        | none => rw [walkWith_free hhere hdot hup hentry, walkWith_free hhere hdot hup hentry]
        | some e =>
            have hplain : ∀ target, e ≠ .link target := fun target heq => hlink target (heq ▸ hentry)
            rwa [walkWith_down hhere hdot hup hentry hplain, walkWith_down hhere hdot hup hentry hplain]
      · rw [walkWith_of_not_isDirectory hhere, walkWith_of_not_isDirectory hhere]

theorem walk_of_linkFree {last : Bool} (hfree : t.LinkFree here names) :
    t.walk last links here names = t.walk true 0 here names := by
  cases links <;> exact walkWith_of_linkFree hfree

theorem eq_foldl_advance (hwalk : t.walk true 0 here names = .ok p) : p = names.foldl advance here := by
  rw [walk] at hwalk
  induction names generalizing here with
  | nil =>
      rw [walkWith] at hwalk
      cases hwalk
      rfl
  | cons name names ih =>
      rw [List.foldl_cons]
      cases (walkWith_cons_iff.1 hwalk).2 with
      | stay h => exact ih h
      | up h => exact ih h
      | link _ _ _ herror => cases herror
      | down hdot hup _ _ h =>
          rw [advance_of_ne hdot hup]
          exact ih h
      | free hdot hup _ hnames hp => rw [hnames, hp, advance_of_ne hdot hup, List.foldl_nil]

theorem walk_singleton (hhere : t.isDirectory here)
    (hlink : ∀ target, t.get? (advance here name) ≠ some (.link target)) :
    t.walk true 0 here [name] = .ok (advance here name) := by
  rw [walk]
  by_cases hdot : name = "."
  · subst hdot
    rw [walkWith_dot hhere, walkWith, advance_dot]
  by_cases hup : name = ".."
  · subst hup
    rw [walkWith_up hhere, walkWith, advance_up]
  rw [advance_of_ne hdot hup] at hlink ⊢
  cases hentry : t.get? (here ++ [name]) with
  | none => rw [walkWith_free hhere hdot hup hentry, List.isEmpty_nil, if_pos rfl]
  | some e =>
      have hplain : ∀ target, e ≠ .link target := fun target heq => hlink target (heq ▸ hentry)
      rw [walkWith_down hhere hdot hup hentry hplain, walkWith]

/-- A way that fails, and not because something is missing, goes on failing: there is a file in it. -/
theorem walk_error_grown {f : Fault} (hgrown : Grown t u) (hfree : t.LinkFree here names)
    (hhere : ∃ e, t.get? here = some e ∧ ∀ target, e ≠ .link target) (hf : f ≠ .notFound)
    (hwalk : t.walk true 0 here names = .error f) : u.walk true 0 here names = .error f := by
  rw [walk] at hwalk ⊢
  induction names generalizing here with
  | nil =>
      rw [walkWith] at hwalk
      cases hwalk
  | cons name names ih =>
      by_cases hdir : t.isDirectory here
      · have hdir' := hgrown.directory here hdir
        have hrest := ih hfree.2
        have hlink := hfree.get?_ne
        by_cases hdot : name = "."
        · subst hdot
          rw [walkWith_dot hdir] at hwalk
          rw [walkWith_dot hdir']
          exact hrest hhere hwalk
        by_cases hup : name = ".."
        · subst hup
          rw [walkWith_up hdir] at hwalk
          rw [walkWith_up hdir']
          exact hrest ⟨_, isDirectory_iff.1 (isDirectory_dropLast hdir), by simp⟩ hwalk
        rw [advance_of_ne hdot hup] at hrest hlink
        cases hentry : t.get? (here ++ [name]) with
        | none =>
            rw [walkWith_free hdir hdot hup hentry] at hwalk
            split at hwalk
            · cases hwalk
            · cases hwalk
              exact absurd rfl hf
        | some e =>
            have hplain : ∀ target, e ≠ .link target := fun target heq => hlink target (heq ▸ hentry)
            obtain ⟨e', hentry', hplain'⟩ := hgrown.exists_get? hentry hplain
            rw [walkWith_down hdir hdot hup hentry hplain] at hwalk
            rw [walkWith_down hdir' hdot hup hentry' hplain']
            exact hrest ⟨e, hentry, hplain⟩ hwalk
      · obtain ⟨e, hentry, hplain⟩ := hhere
        rw [walkWith_of_not_isDirectory hdir] at hwalk
        rw [← hwalk]
        apply walkWith_of_not_isDirectory
        cases e with
        | link target => exact absurd rfl (hplain target)
        | directory => exact absurd (isDirectory_iff.2 hentry) hdir
        | file content =>
            obtain ⟨content', hfile⟩ := hgrown.file here content hentry
            rw [isDirectory_iff, hfile]
            simp

/-! ### Paths -/

/-- Where the names of a path are followed from. -/
def start (current : Place) (path : String) : Place := if Path.isAbsolute path then [] else current

/-- Whether no link stands on the way that a path goes. -/
def Direct (t : FileTree) (current : Place) (path : String) : Prop :=
  t.LinkFree (start current path) (stepsOf path)

instance (t : FileTree) (current : Place) (path : String) : Decidable (t.Direct current path) :=
  decidableLinkFree t _ _

/-- Whether a path leads to a directory. The empty path leads to the current one. -/
def Opens (t : FileTree) (current : Place) (path : String) : Prop :=
  ∃ p, t.walk true 0 (start current path) (stepsOf path) = .ok p ∧ t.isDirectory p

theorem Opens.grown (h : t.Opens current path) (hgrown : Grown t u) : u.Opens current path := by
  obtain ⟨p, hwalk, hdir⟩ := h
  exact ⟨p, walk_grown hgrown hwalk, hgrown.directory p hdir⟩

namespace Direct

theorem grown (h : t.Direct current path) (hgrown : Grown t u) : u.Direct current path :=
  LinkFree.grown h hgrown

theorem follow_eq {last : Bool} (h : t.Direct current path) (hne : path ≠ "") :
    t.follow current path last (stepsOf path) =
      t.walk true 0 (start current path) (stepsOf path) := by
  unfold follow
  rw [if_neg (by rwa [String.isEmpty_iff])]
  exact walk_of_linkFree h

theorem place_eq (h : t.Direct current path) (hne : path ≠ "") :
    t.place current path = t.walk true 0 (start current path) (stepsOf path) :=
  h.follow_eq hne

end Direct

namespace Continues

theorem start_eq (h : Continues above path name between after) :
    start current above = start current path := by
  unfold start
  rw [h.absolute]

theorem direct (h : Continues above path name between after) (hfree : t.Direct current path) :
    t.Direct current above := by
  unfold Direct at hfree ⊢
  rw [h.steps] at hfree
  rw [h.start_eq]
  exact (linkFree_append.1 hfree).1

/-- A path leads somewhere only if the path above it leads to a directory. -/
theorem opens (h : Continues above path name between after)
    (hwalk : t.walk true 0 (start current path) (stepsOf path) = .ok p) : t.Opens current above := by
  rw [h.steps] at hwalk
  obtain ⟨q, -, -, hq, hdir, -⟩ := walk_split (by simp) hwalk
  rw [← h.start_eq] at hq
  exact ⟨q, hq, hdir⟩

/-- A path leads to the same place in all trees in which the path above it leads to a directory. -/
theorem walk_eq (h : Continues above path name between []) (hfree : t.Direct current path)
    (habove : t.Opens current above) : t.walk true 0 (start current path) (stepsOf path) =
      .ok ((stepsOf path).foldl advance (start current path)) := by
  obtain ⟨q, hq, hdir⟩ := habove
  rw [h.start_eq] at hq
  unfold Direct at hfree
  rw [h.steps, linkFree_append, ← eq_foldl_advance hq, linkFree_append,
    ← eq_foldl_advance (walk_dots hdir h.before_name)] at hfree
  have hname := walk_singleton hdir hfree.2.2.get?_ne
  rw [← walk_dots_append hdir h.before_name] at hname
  have hwalk := walk_append hq hname
  rw [← h.steps] at hwalk
  rw [← eq_foldl_advance hwalk]
  exact hwalk

end Continues

end FileTree

end EndpointAtlas
