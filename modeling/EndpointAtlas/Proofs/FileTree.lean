import EndpointAtlas.Files.Tree
import EndpointAtlas.Proofs.SortedMap

/-!
# A file that was written is found again

A path under which a file can be written leads to a place in a directory. The file put there changes
nothing that is met on the way, so the same path leads to it afterwards.
-/

namespace EndpointAtlas

namespace FileTree

variable {t : FileTree} {p q here : Place} {names : List String}

@[simp]
theorem isDirectory_nil (t : FileTree) : t.isDirectory [] := rfl

theorem isDirectory_iff : t.isDirectory p ↔ t.get? p = some .directory := by
  simp [isDirectory]

theorem isDirectory_dropLast_of_get? {e : Entry} (h : t.get? p = some e) :
    t.isDirectory p.dropLast := by
  by_cases hp : p = []
  · subst hp
    rfl
  · have hentry : t.entries.get? p = some e := by
      rwa [get?, entryIn, if_neg (by simpa using hp)] at h
    have hparent := (t.parents p (SortedMap.mem_keys_iff.2 ⟨e, hentry⟩)).2
    rwa [isDirectory_iff]

theorem isDirectory_dropLast (h : t.isDirectory p) : t.isDirectory p.dropLast :=
  isDirectory_dropLast_of_get? (isDirectory_iff.1 h)

theorem accepts_iff :
    t.accepts p ↔ p ≠ [] ∧ t.isDirectory p.dropLast ∧ ¬ t.isDirectory p := by
  simp [accepts, and_assoc]

theorem get?_put (h : t.accepts p) (e : Entry) (q : Place) :
    (t.put p e).get? q = if q = p then some e else t.get? q := by
  have hp := (accepts_iff.1 h).1
  rw [put, dif_pos h]
  simp only [get?, entryIn, SortedMap.get?_insert]
  by_cases hq : q = []
  · subst hq
    simp [Ne.symm hp]
  · simp [hq]

theorem entries_get?_nil (t : FileTree) : t.entries.get? [] = none := by
  cases hentry : t.entries.get? [] with
  | none => rfl
  | some e => exact absurd rfl (t.parents [] (SortedMap.mem_keys_iff.2 ⟨e, hentry⟩)).1

/-- Trees in which the same stands everywhere are the same. -/
theorem ext_get? {t u : FileTree} (h : ∀ p, t.get? p = u.get? p) : t = u := by
  have hentries : t.entries = u.entries := by
    apply SortedMap.ext_get?
    intro p
    by_cases hp : p = []
    · subst hp
      rw [entries_get?_nil, entries_get?_nil]
    · have hsame := h p
      unfold get? entryIn at hsame
      rwa [if_neg (by simpa using hp), if_neg (by simpa using hp)] at hsame
  cases t
  cases u
  simpa using hentries

/-! ### Where a path can lead -/

/-- A directory, or a place in one where no link stands. -/
def Settled (t : FileTree) (p : Place) : Prop :=
  t.isDirectory p ∨ t.isDirectory p.dropLast ∧ ∀ target, t.get? p ≠ some (.link target)

/-- One step of a walk: on the spot, up, along a link, down to what is there, or to a free place at
the end. -/
inductive StepsTo (follow : Place → List String → Except Fault Place) (t : FileTree) (here : Place)
    (rest : List String) (p : Place) : String → Prop
  | stay : walkWith follow t true here rest = .ok p → StepsTo follow t here rest p "."
  | up : walkWith follow t true here.dropLast rest = .ok p → StepsTo follow t here rest p ".."
  | link {name target : String} : name ≠ "." → name ≠ ".." →
      t.get? (here ++ [name]) = some (.link target) →
      follow (if Path.isAbsolute target then [] else here) (stepsOf target ++ rest) = .ok p →
      StepsTo follow t here rest p name
  | down {name : String} {e : Entry} : name ≠ "." → name ≠ ".." →
      t.get? (here ++ [name]) = some e → (∀ target, e ≠ .link target) →
      walkWith follow t true (here ++ [name]) rest = .ok p → StepsTo follow t here rest p name
  | free {name : String} : name ≠ "." → name ≠ ".." → t.get? (here ++ [name]) = none →
      rest = [] → p = here ++ [name] → StepsTo follow t here rest p name

theorem walkWith_cons_iff {follow : Place → List String → Except Fault Place} {name : String}
    {rest : List String} :
    walkWith follow t true here (name :: rest) = .ok p ↔
      t.isDirectory here ∧ StepsTo follow t here rest p name := by
  rw [walkWith]
  constructor
  · intro hwalk
    split at hwalk
    · cases hwalk
    next hdir =>
    refine ⟨by simpa using hdir, ?_⟩
    split at hwalk
    · next hdot =>
      rw [eq_of_beq hdot]
      exact .stay hwalk
    next hdot =>
    split at hwalk
    · next hup =>
      rw [eq_of_beq hup]
      exact .up hwalk
    next hup =>
    have hdot' : name ≠ "." := fun h => hdot (beq_iff_eq.2 h)
    have hup' : name ≠ ".." := fun h => hup (beq_iff_eq.2 h)
    dsimp only at hwalk
    split at hwalk
    · next hentry =>
      rw [if_neg (by simp)] at hwalk
      exact .link hdot' hup' hentry hwalk
    · next e hplain hentry => exact .down hdot' hup' hentry (fun target h => hplain target h) hwalk
    · next hnone =>
      split at hwalk
      · next hrest =>
        cases hwalk
        exact .free hdot' hup' hnone (List.isEmpty_iff.1 hrest) rfl
      · cases hwalk
  · rintro ⟨hdir, hstep⟩
    rw [hdir]
    cases hstep with
    | stay h => simpa using h
    | up h => simpa using h
    | link hdot hup hentry h => simpa [hdot, hup, hentry] using h
    | down hdot hup hentry hplain h =>
        rename_i e
        cases e with
        | link target => exact absurd rfl (hplain target)
        | file content => simpa [hdot, hup, hentry] using h
        | directory => simpa [hdot, hup, hentry] using h
    | free hdot hup hnone hrest hp => simp [hdot, hup, hnone, hrest, hp]

theorem isDirectory_of_walkWith {follow : Place → List String → Except Fault Place}
    (hnames : names ≠ []) (hwalk : walkWith follow t true here names = .ok p) :
    t.isDirectory here := by
  cases names with
  | nil => exact absurd rfl hnames
  | cons name rest => exact (walkWith_cons_iff.1 hwalk).1

theorem settled_of_walkWith {follow : Place → List String → Except Fault Place}
    (hfollow : ∀ start names q, t.isDirectory start → follow start names = .ok q → Settled t q)
    (hhere : Settled t here) (hwalk : walkWith follow t true here names = .ok p) :
    Settled t p := by
  induction names generalizing here with
  | nil =>
      rw [walkWith] at hwalk
      cases hwalk
      exact hhere
  | cons name rest ih =>
      obtain ⟨hdir, hstep⟩ := walkWith_cons_iff.1 hwalk
      have hparent : t.isDirectory (here ++ [name]).dropLast := by
        rwa [List.dropLast_concat]
      cases hstep with
      | stay h => exact ih hhere h
      | up h => exact ih (Or.inl (isDirectory_dropLast hdir)) h
      | link _ _ _ h =>
          refine hfollow _ _ p ?_ h
          split
          · rfl
          · exact hdir
      | down _ _ hentry hplain h =>
          refine ih (Or.inr ⟨hparent, ?_⟩) h
          intro target hlink
          rw [hentry] at hlink
          exact hplain target (Option.some.inj hlink)
      | free _ _ hnone _ hp =>
          subst hp
          refine Or.inr ⟨hparent, ?_⟩
          rw [hnone]
          simp

theorem settled_of_walk {links : Nat} (hhere : t.isDirectory here)
    (hwalk : t.walk true links here names = .ok p) : Settled t p := by
  induction links generalizing here names p with
  | zero =>
      refine settled_of_walkWith ?_ (Or.inl hhere) hwalk
      intro _ _ _ _ herror
      cases herror
  | succ links ih => exact settled_of_walkWith (fun _ _ _ => ih) (Or.inl hhere) hwalk

/-! ### The way to a place is as it was -/

/-- Whether `u` has the directories, files and links of `t` and no other links. The content of a file may
be another one. -/
structure Grown (t u : FileTree) : Prop where
  directory : ∀ p, t.isDirectory p → u.isDirectory p
  file : ∀ p content, t.get? p = some (.file content) → ∃ content', u.get? p = some (.file content')
  link : ∀ p target, u.get? p = some (.link target) ↔ t.get? p = some (.link target)

namespace Grown

variable {u v : FileTree}

theorem refl (t : FileTree) : Grown t t :=
  ⟨fun _ h => h, fun _ content h => ⟨content, h⟩, fun _ _ => Iff.rfl⟩

theorem trans (htu : Grown t u) (huv : Grown u v) : Grown t v := by
  refine ⟨fun p h => huv.directory p (htu.directory p h), ?_, ?_⟩
  · intro p content h
    obtain ⟨content', h'⟩ := htu.file p content h
    exact huv.file p content' h'
  · intro p target
    rw [huv.link, htu.link]

/-- What is no link stays something that is no link. -/
theorem exists_get? (h : Grown t u) {e : Entry} (hentry : t.get? p = some e)
    (hplain : ∀ target, e ≠ .link target) :
    ∃ e', u.get? p = some e' ∧ ∀ target, e' ≠ .link target := by
  cases e with
  | file content =>
      obtain ⟨content', hfile⟩ := h.file p content hentry
      exact ⟨_, hfile, by simp⟩
  | directory => exact ⟨_, isDirectory_iff.1 (h.directory p (isDirectory_iff.2 hentry)), by simp⟩
  | link target => exact absurd rfl (hplain target)

end Grown

theorem grown_put (haccepts : t.accepts p) (hlink : ∀ target, t.get? p ≠ some (.link target))
    {e : Entry} (hplain : ∀ target, e ≠ .link target)
    (hkind : ∀ content, t.get? p = some (.file content) → ∃ content', e = .file content') :
    Grown t (t.put p e) := by
  have hfree : ¬ t.isDirectory p := (accepts_iff.1 haccepts).2.2
  refine ⟨?_, ?_, ?_⟩
  · intro q hq
    have hne : q ≠ p := by
      rintro rfl
      exact hfree hq
    rw [isDirectory_iff, get?_put haccepts, if_neg hne]
    exact isDirectory_iff.1 hq
  · intro q content hq
    rw [get?_put haccepts]
    by_cases heq : q = p
    · subst heq
      obtain ⟨content', rfl⟩ := hkind content hq
      exact ⟨content', if_pos rfl⟩
    · exact ⟨content, by rwa [if_neg heq]⟩
  · intro q target
    rw [get?_put haccepts]
    by_cases heq : q = p
    · subst heq
      simp [hplain, hlink]
    · rw [if_neg heq]

theorem grown_put_file {content : List UInt8} (haccepts : t.accepts p)
    (hlink : ∀ target, t.get? p ≠ some (.link target)) : Grown t (t.put p (.file content)) :=
  grown_put haccepts hlink (by simp) fun _ _ => ⟨content, rfl⟩

section Grown

variable {u : FileTree}

/-- A step that comes to a place goes on to the same place in a grown tree. Only a free place at the end
may have been taken since. -/
theorem walkWith_grown {follow follow' : Place → List String → Except Fault Place}
    (hgrown : Grown t u)
    (hfollow : ∀ start names, follow start names = .ok p → follow' start names = .ok p)
    (hwalk : walkWith follow t true here names = .ok p) :
    walkWith follow' u true here names = .ok p := by
  induction names generalizing here with
  | nil =>
      rw [walkWith] at hwalk ⊢
      exact hwalk
  | cons name rest ih =>
      obtain ⟨hdir, hstep⟩ := walkWith_cons_iff.1 hwalk
      refine walkWith_cons_iff.2 ⟨hgrown.directory here hdir, ?_⟩
      cases hstep with
      | stay h => exact .stay (ih h)
      | up h => exact .up (ih h)
      | link hdot hup hentry h =>
          exact .link hdot hup ((hgrown.link _ _).2 hentry) (hfollow _ _ h)
      | down hdot hup hentry hplain h =>
          obtain ⟨e', hentry', hplain'⟩ := hgrown.exists_get? hentry hplain
          exact .down hdot hup hentry' hplain' (ih h)
      | free hdot hup hnone hrest hp =>
          cases htaken : u.get? (here ++ [name]) with
          | none => exact .free hdot hup htaken hrest hp
          | some e =>
              have hplain : ∀ target, e ≠ .link target := by
                rintro target rfl
                rw [(hgrown.link _ _).1 htaken] at hnone
                cases hnone
              refine .down hdot hup htaken hplain ?_
              rw [hrest, walkWith, hp]

theorem walk_grown {links : Nat} (hgrown : Grown t u)
    (hwalk : t.walk true links here names = .ok p) : u.walk true links here names = .ok p := by
  induction links generalizing here names with
  | zero =>
      refine walkWith_grown hgrown ?_ hwalk
      intro _ _ herror
      cases herror
  | succ links ih => exact walkWith_grown hgrown (fun _ _ => ih) hwalk

/-- A path leads to the same place in a grown tree. -/
theorem place_grown {current : Place} {path : String} (hgrown : Grown t u)
    (hplace : t.place current path = .ok p) : u.place current path = .ok p := by
  unfold place follow at hplace ⊢
  by_cases hempty : path.isEmpty
  · rw [if_pos hempty] at hplace
    cases hplace
  · rw [if_neg hempty] at hplace ⊢
    exact walk_grown hgrown hplace

end Grown

/-! ### Writing -/

theorem stepsOf_ne_nil {path : String} (hempty : path.isEmpty = false)
    (hrelative : Path.isAbsolute path = false) : stepsOf path ≠ [] := by
  have hnames : ((Path.pieces path.toList).filter fun p => !p.isEmpty) ≠ [] := by
    cases hcs : path.toList with
    | nil =>
        rw [String.toList_eq_nil_iff] at hcs
        simp [hcs] at hempty
    | cons c cs =>
        have hc : c ≠ '/' := by
          rintro rfl
          simp [Path.isAbsolute, hcs] at hrelative
        rw [Path.pieces, if_neg hc]
        split <;> simp
  rw [stepsOf]
  split
  · simp
  · exact fun h => hnames (List.map_eq_nil_iff.1 h)

/-- Where a file can be written the path leads to, and a file can stand. -/
theorem place_of_target {current : Place} {path : String} (h : t.target current path = .ok p) :
    t.place current path = .ok p ∧ ¬ t.isDirectory p := by
  rw [target] at h
  split at h
  · split at h <;> cases h
  split at h
  · next q hq =>
    split at h
    · cases h
    next hplain =>
    cases h
    exact ⟨hq, hplain⟩
  · cases h

theorem settled_of_place {current : Place} {path : String} (h : t.place current path = .ok p) :
    Settled t p := by
  rw [place, follow] at h
  split at h
  · cases h
  next hempty =>
  split at h
  · exact settled_of_walk rfl h
  next hrelative =>
  have hsteps := stepsOf_ne_nil (Bool.eq_false_iff.2 hempty) (Bool.eq_false_iff.2 hrelative)
  exact settled_of_walk (isDirectory_of_walkWith hsteps h) h

/-- A file can be put where it can be written, and no link stands there. -/
theorem accepts_of_target {current : Place} {path : String} (h : t.target current path = .ok p) :
    t.accepts p ∧ ∀ target, t.get? p ≠ some (.link target) := by
  obtain ⟨hplace, hplain⟩ := place_of_target h
  obtain ⟨hparent, hlink⟩ := (settled_of_place hplace).resolve_left hplain
  have hne : p ≠ [] := fun hnil => hplain (hnil ▸ isDirectory_nil t)
  exact ⟨accepts_iff.2 ⟨hne, hparent, hplain⟩, hlink⟩

theorem grown_of_target {current : Place} {path : String} {content : List UInt8}
    (h : t.target current path = .ok p) : Grown t (t.put p (.file content)) := by
  obtain ⟨haccepts, hlink⟩ := accepts_of_target h
  exact grown_put_file haccepts hlink

/-- What was written under a path is what the path leads to. -/
theorem find_write {u : FileTree} {current : Place} {path : String} {content : List UInt8}
    (h : t.write current path content = .ok u) : u.find current path = .ok (.file content) := by
  rw [write] at h
  cases htarget : t.target current path with
  | error f =>
      rw [htarget] at h
      cases h
  | ok p =>
      rw [htarget] at h
      cases h
      obtain ⟨hplace, -⟩ := place_of_target htarget
      have hplace' : (t.put p (.file content)).place current path = .ok p :=
        place_grown (grown_of_target htarget) hplace
      rw [find, hplace']
      simp only
      rw [get?_put (accepts_of_target htarget).1, if_pos rfl]

end FileTree

end EndpointAtlas
