import EndpointAtlas.Proofs.Report

/-!
# What writing a report does to a tree

An attempt to write a report first makes the directories that are missing above it. If they can be made,
and a file can then be written under the path, one file is put there; otherwise no file is touched.
-/

namespace EndpointAtlas

namespace FileTree

variable {t u v s : FileTree} {p current : Place} {path : String}

/-! ### Directories where there was nothing -/

/-- Whether `u` is `t` with some directories more, at places that were free. -/
def Furnished (t u : FileTree) : Prop :=
  ∀ p, u.get? p = t.get? p ∨ t.get? p = none ∧ u.get? p = some .directory

namespace Furnished

theorem refl (t : FileTree) : Furnished t t := fun _ => Or.inl rfl

theorem get?_of_some {e : Entry} (h : Furnished t u) (hentry : t.get? p = some e) :
    u.get? p = some e := by
  obtain hsame | ⟨hnone, -⟩ := h p
  · rw [hsame, hentry]
  · rw [hentry] at hnone
    cases hnone

theorem trans (htu : Furnished t u) (huv : Furnished u v) : Furnished t v := by
  intro p
  obtain hsame | ⟨hnone, hmade⟩ := htu p
  · rw [← hsame]
    exact huv p
  · exact Or.inr ⟨hnone, huv.get?_of_some hmade⟩

/-- Every file and every link was there before. -/
theorem get?_of_ne_directory {e : Entry} (h : Furnished t u) (hentry : u.get? p = some e)
    (hplain : e ≠ .directory) : t.get? p = some e := by
  obtain hsame | ⟨-, hmade⟩ := h p
  · rw [← hsame, hentry]
  · rw [hentry] at hmade
    exact absurd (Option.some.inj hmade) hplain

theorem grown (h : Furnished t u) : Grown t u := by
  refine ⟨?_, ?_, ?_⟩
  · intro p hp
    exact isDirectory_iff.2 (h.get?_of_some (isDirectory_iff.1 hp))
  · intro p content hp
    exact ⟨content, h.get?_of_some hp⟩
  · intro p target
    exact ⟨fun hlink => h.get?_of_ne_directory hlink (by simp), fun hlink => h.get?_of_some hlink⟩

end Furnished

theorem furnished_put (hfree : t.get? p = none) : Furnished t (t.put p .directory) := by
  by_cases haccepts : t.accepts p
  · intro q
    rw [get?_put haccepts]
    by_cases heq : q = p
    · exact Or.inr ⟨heq ▸ hfree, if_pos heq⟩
    · exact Or.inl (if_neg heq)
  · unfold put
    rw [dif_neg haccepts]
    exact Furnished.refl t

theorem furnished_makeDirectory (h : t.makeDirectory current path = .ok u) : Furnished t u := by
  unfold makeDirectory at h
  split at h
  · next p _ =>
    by_cases htaken : (t.get? p).isSome
    · rw [if_pos htaken] at h
      cases h
    · rw [if_neg htaken] at h
      cases h
      exact furnished_put (by simpa using htaken)
  · cases h

theorem furnished_ensureDirectory (t : FileTree) (current : Place) (path : String) :
    Furnished t (t.ensureDirectory current path).1 := by
  unfold ensureDirectory
  split
  · next hmade => exact furnished_makeDirectory hmade
  · exact Furnished.refl t

theorem furnished_ensureDirectories (current : Place) (fuel : Nat) (t : FileTree) (path : String) :
    Furnished t (ensureDirectories current fuel t path).1 := by
  induction fuel generalizing t path with
  | zero => exact Furnished.refl t
  | succ fuel ih =>
      unfold ensureDirectories
      split
      · exact Furnished.refl t
      · split
        · next parent _ _ =>
          have habove := ih t parent
          split
          · next s hs =>
            rw [hs] at habove
            exact habove.trans (furnished_ensureDirectory s current path)
          · exact habove
        · exact furnished_ensureDirectory t current path

theorem furnished_makeDirectories (t : FileTree) (current : Place) (path : String) :
    Furnished t (t.makeDirectories current path).1 :=
  furnished_ensureDirectories current _ t path

/-! ### Where a report can be written -/

/-- Whether the directories above a path can be made, which leaves `s`. -/
def Readies (t : FileTree) (current : Place) (path : String) (s : FileTree) : Prop :=
  match Path.parent? path with
  | some parent => t.makeDirectories current parent = (s, none)
  | none => s = t

/-- Whether a file can be written under a path once the directories above it have been made. -/
def Writable (t : FileTree) (current : Place) (path : String) : Prop :=
  ∃ s p, t.Readies current path s ∧ s.target current path = .ok p

theorem readies_iff_of_some {above : String} (hparent : Path.parent? path = some above) :
    t.Readies current path s ↔ t.makeDirectories current above = (s, none) := by
  unfold Readies
  rw [hparent]

theorem readies_iff_of_none (hparent : Path.parent? path = none) :
    t.Readies current path s ↔ s = t := by
  unfold Readies
  rw [hparent]

theorem Readies.furnished (h : t.Readies current path s) : Furnished t s := by
  cases hparent : Path.parent? path with
  | none =>
      rw [(readies_iff_of_none hparent).1 h]
      exact Furnished.refl t
  | some above =>
      have hmade := furnished_makeDirectories t current above
      rwa [(readies_iff_of_some hparent).1 h] at hmade

end FileTree

namespace Report

open FileTree

variable {t u s : FileTree} {p current : Place} {path : String} {text : List Char}

def bytes (text : List Char) : List UInt8 := Text.Utf8.encode (text ++ ['\n'])

/-- What an attempt to write a report comes to: one file more, or nothing but directories. -/
inductive Attempt (t : FileTree) (current : Place) (path : String) (text : List Char) :
    FileTree → Bool → Prop
  | written {s : FileTree} {p : Place} : t.Readies current path s → s.target current path = .ok p →
      Attempt t current path text (s.put p (.file (bytes text))) true
  | refused {u : FileTree} : ¬ t.Writable current path → t.Furnished u →
      Attempt t current path text u false

theorem write_of_ready (hready : t.Readies current path s) (htarget : s.target current path = .ok p)
    (text : List Char) :
    write t current path text = (s.put p (.file (bytes text)), none) := by
  have hput : s.write current path (Text.Utf8.encode (text ++ ['\n'])) =
      .ok (s.put p (.file (bytes text))) := by
    unfold FileTree.write
    rw [htarget]
    rfl
  unfold write
  cases hparent : Path.parent? path with
  | none =>
      cases (readies_iff_of_none hparent).1 hready
      simp only [hput]
  | some above =>
      simp only [(readies_iff_of_some hparent).1 hready, Option.map_none, hput]

theorem write_of_unready {above : String} {f : Fault} (hparent : Path.parent? path = some above)
    (hmade : t.makeDirectories current above = (s, some f)) (text : List Char) :
    write t current path text = (s, some ⟨.makeDirectory, above, some f⟩) := by
  unfold write
  rw [hparent]
  simp only [hmade, Option.map_some]

theorem write_of_ready_error {f : Fault} (hready : t.Readies current path s)
    (htarget : s.target current path = .error f) (text : List Char) :
    write t current path text = (s, some ⟨.create, path, some f⟩) := by
  have hfile : s.write current path (Text.Utf8.encode (text ++ ['\n'])) = .error f := by
    unfold FileTree.write
    rw [htarget]
    rfl
  unfold write
  cases hparent : Path.parent? path with
  | none =>
      cases (readies_iff_of_none hparent).1 hready
      simp only [hfile]
  | some above =>
      simp only [(readies_iff_of_some hparent).1 hready, Option.map_none, hfile]

theorem readies_cases (t : FileTree) (current : Place) (path : String) :
    (∃ s, t.Readies current path s) ∨
      ∃ above s f, Path.parent? path = some above ∧ t.makeDirectories current above = (s, some f) := by
  cases hparent : Path.parent? path with
  | none => exact Or.inl ⟨t, (readies_iff_of_none hparent).2 rfl⟩
  | some above =>
      cases hmade : t.makeDirectories current above with
      | mk s fault =>
          cases fault with
          | none => exact Or.inl ⟨s, (readies_iff_of_some hparent).2 hmade⟩
          | some f => exact Or.inr ⟨above, s, f, rfl, hmade⟩

theorem write_of_not_writable (hrefused : ¬ t.Writable current path) (text : List Char) :
    ∃ s f, t.Furnished s ∧ write t current path text = (s, some f) := by
  obtain ⟨s, hready⟩ | ⟨above, s, f, hparent, hmade⟩ := readies_cases t current path
  · cases htarget : s.target current path with
    | error f => exact ⟨s, _, hready.furnished, write_of_ready_error hready htarget text⟩
    | ok p => exact absurd ⟨s, p, hready, htarget⟩ hrefused
  · have hfurnished := furnished_makeDirectories t current above
    rw [hmade] at hfurnished
    exact ⟨s, _, hfurnished, write_of_unready hparent hmade text⟩

/-- A report is written as soon as it can be. -/
theorem attempt_write (t : FileTree) (current : Place) (path : String) (text : List Char) :
    Attempt t current path text (write t current path text).1
      (write t current path text).2.isNone := by
  by_cases hwritable : t.Writable current path
  · obtain ⟨s, p, hready, htarget⟩ := hwritable
    rw [write_of_ready hready htarget]
    exact .written hready htarget
  · obtain ⟨s, f, hfurnished, hwrite⟩ := write_of_not_writable hwritable text
    rw [hwrite]
    exact .refused hwritable hfurnished

namespace Attempt

variable {written : Bool}

theorem writable_iff (h : Attempt t current path text u written) :
    t.Writable current path ↔ written := by
  cases h with
  | written hready htarget => exact ⟨fun _ => rfl, fun _ => ⟨_, _, hready, htarget⟩⟩
  | refused hrefused _ => exact ⟨fun h => absurd h hrefused, fun h => absurd h Bool.false_ne_true⟩

theorem grown (h : Attempt t current path text u written) : Grown t u := by
  cases h with
  | written hready htarget => exact hready.furnished.grown.trans (grown_of_target htarget)
  | refused _ hfurnished => exact hfurnished.grown

/-- The path of a written report leads to the file with its text. -/
theorem leads (h : Attempt t current path text u true) :
    ∃ p, u.place current path = .ok p ∧ u.get? p = some (.file (bytes text)) := by
  cases h with
  | written hready htarget =>
      rename_i s p
      refine ⟨p, place_grown (grown_of_target htarget) (place_of_target htarget).1, ?_⟩
      rw [get?_put (accepts_of_target htarget).1, if_pos rfl]

/-- No file is touched but the one that the path of a written report leads to. -/
theorem get?_of_file {content : List UInt8} (h : Attempt t current path text u written)
    (hfile : t.get? p = some (.file content)) :
    u.get? p = some (.file content) ∨ written ∧ u.place current path = .ok p := by
  cases h with
  | written hready htarget =>
      rename_i s q
      rw [get?_put (accepts_of_target htarget).1]
      by_cases heq : p = q
      · subst heq
        exact Or.inr ⟨rfl, place_grown (grown_of_target htarget) (place_of_target htarget).1⟩
      · rw [if_neg heq]
        exact Or.inl (hready.furnished.get?_of_some hfile)
  | refused _ hfurnished => exact Or.inl (hfurnished.get?_of_some hfile)

end Attempt

theorem find_of_leads (hplace : u.place current path = .ok p)
    (hfile : u.get? p = some (.file (bytes text))) :
    u.find current path = .ok (.file (bytes text)) := by
  unfold find
  rw [hplace]
  simp only [hfile]

theorem read_of_find {α : Type} {reader : List Char → Option α} {x : α}
    (hfind : u.find current path = .ok (.file (bytes text)))
    (hreader : reader (text ++ ['\n']) = some x) : read reader u current path = .ok x := by
  unfold read
  rw [hfind]
  simp only [bytes, Text.Utf8.decode?_encode, Option.bind_some, hreader]

end Report

end EndpointAtlas
