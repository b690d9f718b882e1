import EndpointAtlas.Proofs.SoundTrees

/-!
# Readings whose pieces follow the grammar

A reading is sound if all pieces on its stacks are sound, all its standpoints hold rules, and the pieces
of each stack with the text still to come are the whole text. Whatever is taken off a stack is sound, and
putting a sound piece on it keeps it so.
-/

namespace EndpointAtlas.Syntax

open Grammar Tree

/-! ### Stacks -/

structure Frame.IsSound (f : Frame) : Prop where
  state : f.state.Lawful
  piece : ∀ p ∈ f.piece, IsPiece p

theorem Frame.isSound_of_none {f : Frame} (hstate : f.state.Lawful) (hpiece : f.piece = none) :
    f.IsSound := by
  refine ⟨hstate, ?_⟩
  rw [hpiece]
  intro p hp
  cases hp

namespace Stack

variable {s below : Stack} {f : Frame} {label : Label} {t : Tree} {state : ItemSet} {n : Nat}
  {pieces acc : List (Label × Tree)}

/-- The text that the pieces of a stack were read from. -/
def source (s : Stack) : List Char := sourceOf (Stack.pieces s)

theorem pieces_cons (f : Frame) (s : Stack) : Stack.pieces (f :: s) = Stack.pieces s ++ f.piece.toList := by
  have hfold (step : List (Label × Tree) → Frame → List (Label × Tree))
      (hstep : ∀ acc g, step acc g = g.piece.toList ++ acc) (s : Stack) (acc : List (Label × Tree)) :
      s.foldl step acc = s.foldl step [] ++ acc := by
    induction s generalizing acc with
    | nil => rfl
    | cons g s ih =>
        rw [List.foldl_cons, List.foldl_cons, ih, ih (step [] g), hstep, hstep, List.append_nil,
          List.append_assoc]
  unfold Stack.pieces
  rw [List.foldl_cons, hfold]
  · cases f.piece <;> rfl
  · intro acc g
    cases g.piece <;> rfl

theorem source_cons (f : Frame) (s : Stack) : source (f :: s) = source s ++ sourceOf f.piece.toList := by
  rw [source, pieces_cons, sourceOf_append, source]

theorem source_push (s : Stack) (label : Label) (t : Tree) (state : ItemSet) :
    source (push s label t state) = source s ++ t.source := by
  rw [push, source_cons, Option.toList_some, sourceOf_cons, sourceOf_nil, List.append_nil]

theorem source_lose (s : Stack) : source (lose s) = source s := by
  rw [lose, source_cons, Option.toList_none, sourceOf_nil, List.append_nil]

theorem source_foldl_push (s : Stack) (pieces : List (Label × Tree)) (state : ItemSet) :
    source (pieces.foldl (fun s (label, t) => push s label t state) s) =
      source s ++ sourceOf pieces := by
  induction pieces generalizing s with
  | nil => rw [List.foldl_nil, sourceOf_nil, List.append_nil]
  | cons piece pieces ih => rw [List.foldl_cons, ih, source_push, sourceOf_cons, List.append_assoc]

/-- Every frame of a sound stack has a sound piece, and tells how long the text up to it is. -/
inductive IsSound : Stack → Prop
  | nil : IsSound []
  | cons {f : Frame} {s : Stack} : f.IsSound →
      f.reach.bytes = (Extent.ofChars (source (f :: s))).bytes → IsSound s → IsSound (f :: s)

theorem IsSound.uncons (h : IsSound (f :: s)) : f.IsSound ∧ IsSound s := by
  cases h with
  | cons hf _ hs => exact ⟨hf, hs⟩

theorem IsSound.of_mem (hs : IsSound s) (hf : f ∈ s) : f.IsSound := by
  induction hs with
  | nil => cases hf
  | cons hfirst _ _ ih =>
      obtain rfl | hf := List.mem_cons.1 hf
      · exact hfirst
      · exact ih hf

theorem isSound_bottom : IsSound bottom :=
  .cons (Frame.isSound_of_none ItemSet.lawful_start rfl) rfl .nil

theorem lawful_top (hs : IsSound s) : (top s).state.Lawful := by
  cases hs with
  | nil => exact ItemSet.lawful_default
  | cons hf _ _ => exact hf.state

theorem bytes_top (hs : IsSound s) : (top s).reach.bytes = (Extent.ofChars (source s)).bytes := by
  cases hs with
  | nil => rfl
  | cons _ hreach _ => exact hreach

theorem isSound_push (hs : IsSound s) (hpiece : IsPiece (label, t)) (hstate : state.Lawful) :
    IsSound (push s label t state) := by
  refine .cons ⟨hstate, ?_⟩ ?_ hs
  · intro p hp
    cases hp
    exact hpiece
  · have hsource := source_push s label t state
    rw [push] at hsource
    rw [hsource, Extent.bytes_ofChars_append, ← bytes_top hs, ← hpiece.sound.bytes]
    rfl

theorem isSound_lose (hs : IsSound s) : IsSound (lose s) := by
  refine .cons (Frame.isSound_of_none ItemSet.lawful_lost rfl) ?_ hs
  have hsource := source_lose s
  rw [lose] at hsource
  rw [hsource]
  exact bytes_top hs

theorem isSound_foldl_push (hs : IsSound s) (hpieces : ∀ p ∈ pieces, IsPiece p)
    (hstate : state.Lawful) :
    IsSound (pieces.foldl (fun s (label, t) => push s label t state) s) := by
  apply List.foldlRecOn (motive := IsSound) _ _ hs
  intro s hs p hp
  exact isSound_push hs (hpieces p hp) hstate

/-- What is taken off a sound stack is sound, and so is what is left. -/
theorem isSound_pop (hs : IsSound s) (hacc : ∀ p ∈ acc, IsPiece p)
    (h : pop n s acc = some (pieces, below)) : (∀ p ∈ pieces, IsPiece p) ∧ IsSound below := by
  induction s generalizing n acc with
  | nil =>
      cases n with
      | zero =>
          cases h
          exact ⟨hacc, hs⟩
      | succ n => cases h
  | cons f s ih =>
      cases n with
      | zero =>
          cases h
          exact ⟨hacc, hs⟩
      | succ n =>
          obtain ⟨hf, htail⟩ := hs.uncons
          rw [pop] at h
          split at h
          · next piece hpiece =>
            exact ih htail (List.forall_mem_cons.2 ⟨hf.piece piece hpiece, hacc⟩) h
          · split at h
            · cases h
            · exact ih htail hacc h

theorem isSound_popExtras (hs : IsSound s) (hacc : ∀ p ∈ acc, IsPiece p) :
    (∀ p ∈ (popExtras s acc).1, IsPiece p) ∧ IsSound (popExtras s acc).2 := by
  induction s generalizing acc with
  | nil => exact ⟨hacc, hs⟩
  | cons f s ih =>
      obtain ⟨hf, htail⟩ := hs.uncons
      rw [popExtras]
      split
      · next piece hpiece =>
        split
        · exact ih htail (List.forall_mem_cons.2 ⟨hf.piece piece hpiece, hacc⟩)
        · exact ⟨hacc, hs⟩
      · exact ⟨hacc, hs⟩

theorem isPiece_pieces (hs : IsSound s) : ∀ p ∈ Stack.pieces s, IsPiece p := by
  apply List.foldlRecOn (motive := fun acc : List (Label × Tree) => ∀ p ∈ acc, IsPiece p) _ _
    (by simp)
  intro acc hacc f hf
  split
  · next piece hpiece => exact List.forall_mem_cons.2 ⟨(hs.of_mem hf).piece piece hpiece, hacc⟩
  · exact hacc

theorem mem_of_mem_splitExtras {p : Label × Tree}
    (hp : p ∈ (splitExtras pieces).1 ∨ p ∈ (splitExtras pieces).2) : p ∈ pieces := by
  obtain hp | hp := hp
  · exact List.mem_of_mem_take hp
  · rw [splitExtras, List.mem_reverse] at hp
    exact List.mem_reverse.1 (List.takeWhile_subset _ hp)

/-! ### The text of what is taken off -/

theorem source_pop (h : pop n s acc = some (pieces, below)) :
    source s ++ sourceOf acc = source below ++ sourceOf pieces := by
  induction s generalizing n acc with
  | nil =>
      cases n with
      | zero =>
          cases h
          rfl
      | succ n => cases h
  | cons f s ih =>
      cases n with
      | zero =>
          cases h
          rfl
      | succ n =>
          rw [pop] at h
          split at h
          · next piece hpiece =>
            rw [← ih h, source_cons, hpiece, sourceOf_cons]
            simp
          · next hnone =>
            split at h
            · cases h
            · rw [← ih h, source_cons, hnone]
              simp

theorem source_popExtras (s : Stack) (acc : List (Label × Tree)) :
    source (popExtras s acc).2 ++ sourceOf (popExtras s acc).1 = source s ++ sourceOf acc := by
  induction s generalizing acc with
  | nil => rfl
  | cons f s ih =>
      rw [popExtras]
      split
      · next piece hpiece =>
        split
        · rw [ih, source_cons, hpiece, sourceOf_cons]
          simp
        · rfl
      · rfl

theorem sourceOf_splitExtras (pieces : List (Label × Tree)) :
    sourceOf (splitExtras pieces).1 ++ sourceOf (splitExtras pieces).2 = sourceOf pieces := by
  have hsuffix : (pieces.reverse.takeWhile fun p => p.1.extra).reverse <:+ pieces := by
    rw [← List.reverse_prefix, List.reverse_reverse]
    exact List.takeWhile_prefix _
  rw [splitExtras, ← sourceOf_append]
  exact congrArg sourceOf (List.suffix_iff_eq_append.1 hsuffix)

/-! ### The first and the last piece taken off -/

/-- What is taken off comes before what has been taken off already. Where a reading lost its place it
is less than was asked for. -/
theorem exists_append_of_pop (h : pop n s acc = some (pieces, below)) :
    ∃ popped, pieces = popped ++ acc ∧ popped.countP isOwn ≤ n := by
  induction s generalizing n acc with
  | nil =>
      cases n with
      | zero =>
          cases h
          exact ⟨[], rfl, Nat.le_refl _⟩
      | succ n => cases h
  | cons f s ih =>
      cases n with
      | zero =>
          cases h
          exact ⟨[], rfl, Nat.le_refl _⟩
      | succ n =>
          rw [pop] at h
          split at h
          · next piece hpiece =>
            obtain ⟨popped, rfl, hcount⟩ := ih h
            refine ⟨popped ++ [piece], by simp, ?_⟩
            rw [List.countP_append, List.countP_singleton, isOwn]
            cases hextra : piece.1.extra with
            | true => simpa [hextra] using hcount
            | false => simpa [hextra] using hcount
          · split at h
            · cases h
            · obtain ⟨popped, hpieces, hcount⟩ := ih h
              exact ⟨popped, hpieces, Nat.le_succ_of_le hcount⟩

/-- If all pieces asked for were there, the one taken off last comes first. -/
theorem isOwn_head?_of_pop (h : pop n s acc = some (pieces, below))
    (hcount : pieces.countP isOwn = n + acc.countP isOwn) (hn : n ≠ 0) :
    ∀ first ∈ pieces.head?, isOwn first := by
  induction s generalizing n acc with
  | nil =>
      cases n with
      | zero => exact absurd rfl hn
      | succ n => cases h
  | cons f s ih =>
      cases n with
      | zero => exact absurd rfl hn
      | succ n =>
          rw [pop] at h
          split at h
          · next piece hpiece =>
            cases hextra : piece.1.extra with
            | true =>
                rw [hextra, if_pos rfl] at h
                refine ih h ?_ hn
                rwa [List.countP_cons_of_neg (by simp [isOwn, hextra])]
            | false =>
                have hown : isOwn piece := by simp [isOwn, hextra]
                rw [hextra, if_neg Bool.false_ne_true] at h
                by_cases hzero : n = 0
                · subst hzero
                  cases s <;> cases h <;> rintro first ⟨⟩ <;> exact hown
                · refine ih h ?_ hzero
                  rw [List.countP_cons_of_pos hown]
                  omega
          · split at h
            · cases h
            · obtain ⟨popped, rfl, hless⟩ := exists_append_of_pop h
              rw [List.countP_append] at hcount
              omega

/-- Below the extras on top of a stack there is a piece of its own, if any. -/
theorem isOwn_top_popExtras : ∀ f ∈ (popExtras s acc).2.head?, ∀ p ∈ f.piece, isOwn p := by
  induction s generalizing acc with
  | nil =>
      intro f hf
      rw [popExtras, List.head?_nil] at hf
      cases hf
  | cons f s ih =>
      rw [popExtras]
      split
      · next piece hpiece =>
        split
        · exact ih
        · next hown =>
          intro g hg p hp
          cases hg
          rw [hpiece] at hp
          cases hp
          simpa [isOwn] using hown
      · next hnone =>
        intro g hg p hp
        cases hg
        rw [hnone] at hp
        cases hp

/-- If all pieces asked for were there, the last of them is the one on top. -/
theorem isOwn_getLast?_of_pop (h : pop n s [] = some (pieces, below))
    (htop : ∀ f ∈ s.head?, ∀ p ∈ f.piece, isOwn p) (hcount : pieces.countP isOwn = n) :
    ∀ last ∈ pieces.getLast?, isOwn last := by
  cases n with
  | zero =>
      cases s <;> cases h <;> intro last hlast <;> cases hlast
  | succ n =>
      cases s with
      | nil => cases h
      | cons f s =>
          rw [pop] at h
          split at h
          · next piece hpiece =>
            obtain ⟨popped, rfl, -⟩ := exists_append_of_pop h
            rw [List.getLast?_concat]
            rintro last ⟨⟩
            exact htop f rfl piece hpiece
          · split at h
            · cases h
            · obtain ⟨popped, rfl, hless⟩ := exists_append_of_pop h
              rw [List.append_nil] at hcount
              omega

end Stack

/-! ### Readings -/

/-- Whether the stacks of a reading divide a text up to where `rest` of it is left. -/
def Reading.Leaves (text rest : List Char) (r : Reading) : Prop :=
  ∀ s ∈ r.divisions, Stack.source s ++ rest = text

structure Reading.IsSound (text : List Char) (r : Reading) : Prop where
  divisions : ∀ s ∈ r.divisions, Stack.IsSound s
  read : r.Leaves text r.rest
  paused : ∀ l rest, r.status = .paused l rest → ∃ cs, l.Begins rest cs ∧ r.Leaves text cs
  landmarks : ∀ m ∈ r.landmarks, m.state.Lawful

/-- Whether a reading goes on where `rest` of a text is left. -/
structure Reading.IsAt (text rest : List Char) (r : Reading) : Prop where
  active : r.status = .active
  read : r.Leaves text rest

namespace Reading

variable {text cs rest : List Char} {r a b : Reading} {s : Stack} {divisions : List Stack} {l : Lexeme}

theorem isSound_default : (default : Reading).IsSound text :=
  ⟨List.forall_mem_nil _, List.forall_mem_nil _, fun _ _ h => (nomatch h), List.forall_mem_nil _⟩

theorem isAt_default : (default : Reading).IsAt text rest := ⟨rfl, List.forall_mem_nil _⟩

theorem lawful_state (hr : r.IsSound text) : r.state.Lawful := by
  rw [state, top]
  cases hdivisions : r.divisions with
  | nil => exact ItemSet.lawful_default
  | cons s ss =>
      refine Stack.lawful_top (hr.divisions s ?_)
      rw [hdivisions]
      exact List.mem_cons_self

theorem IsSound.isAt (hr : r.IsSound text) (hactive : r.status = .active) : r.IsAt text r.rest :=
  ⟨hactive, hr.read⟩

theorem status_of_isActive (h : r.isActive) : r.status = .active := by
  rw [isActive] at h
  split at h
  · assumption
  · cases h

theorem not_paused (hactive : r.status = .active) {P : Lexeme → List Char → Prop} : ∀ l rest,
    r.status = .paused l rest → P l rest := by
  intro l rest h
  rw [hactive] at h
  cases h

theorem isSound_active (r : Reading) (hdivisions : ∀ s ∈ divisions, Stack.IsSound s)
    (hread : ∀ s ∈ divisions, Stack.source s ++ r.rest = text) :
    { r with divisions := divisions, status := .active, landmarks := [] : Reading }.IsSound text :=
  ⟨hdivisions, hread, fun _ _ h => (nomatch h), List.forall_mem_nil _⟩

theorem isSound_nodesAtRepair (hr : r.IsSound text) (n : Nat) :
    { r with nodesAtRepair := n }.IsSound text :=
  ⟨hr.divisions, hr.read, hr.paused, hr.landmarks⟩

theorem isSound_settle (hr : r.IsSound text) : r.settle.IsSound text := isSound_nodesAtRepair hr _

theorem isSound_halted (hr : r.IsSound text) : { r with status := .halted }.IsSound text :=
  ⟨hr.divisions, hr.read, fun _ _ h => (nomatch h), hr.landmarks⟩

/-- What is done to every stack keeps a reading sound if it keeps the text of the stack. -/
theorem isSound_mapStacks (hr : r.IsSound text) {f : Stack → Stack}
    (hf : ∀ s, Stack.IsSound s → Stack.IsSound (f s))
    (hsource : ∀ s, Stack.source (f s) = Stack.source s) : (r.mapStacks f).IsSound text := by
  have hread {cs : List Char} (h : r.Leaves text cs) : (r.mapStacks f).Leaves text cs := by
    intro s hs
    obtain ⟨s', hs', rfl⟩ := List.mem_map.1 hs
    rw [hsource]
    exact h s' hs'
  refine ⟨?_, hread hr.read, ?_, hr.landmarks⟩
  · intro s hs
    obtain ⟨s', hs', rfl⟩ := List.mem_map.1 hs
    exact hf s' (hr.divisions s' hs')
  · intro l rest h
    obtain ⟨cs, hl, hcs⟩ := hr.paused l rest h
    exact ⟨cs, hl, hread hcs⟩

theorem IsAt.mapStacks (h : r.IsAt text rest) {f : Stack → Stack}
    (hsource : ∀ s, Stack.source (f s) = Stack.source s) : (r.mapStacks f).IsAt text rest := by
  refine ⟨h.active, ?_⟩
  intro s hs
  obtain ⟨s', hs', rfl⟩ := List.mem_map.1 hs
  rw [hsource]
  exact h.read s' hs'

/-! ### Joining readings -/

theorem mem_of_mem_addStack {t : Stack} (ht : t ∈ addStack divisions s) : t = s ∨ t ∈ divisions := by
  induction divisions with
  | nil => exact Or.inl (List.mem_singleton.1 ht)
  | cons u us ih =>
      rw [addStack] at ht
      split at ht
      · rw [List.mem_cons] at ht
        obtain rfl | ht := ht
        · split
          · exact Or.inl rfl
          · exact Or.inr List.mem_cons_self
        · exact Or.inr (List.mem_cons_of_mem u ht)
      · rw [List.mem_cons] at ht
        obtain rfl | ht := ht
        · exact Or.inr List.mem_cons_self
        · exact (ih ht).imp_right (List.mem_cons_of_mem u)

theorem mem_of_mem_merge (hs : s ∈ (a.merge b).divisions) : s ∈ a.divisions ∨ s ∈ b.divisions := by
  have hall : ∀ s ∈ b.divisions.foldl addStack a.divisions, s ∈ a.divisions ∨ s ∈ b.divisions := by
    refine forall_mem_foldl (fun s => s ∈ a.divisions ∨ s ∈ b.divisions) (fun _ => .inl) ?_
    intro acc hacc s hs t ht
    obtain rfl | ht := mem_of_mem_addStack ht
    · exact .inr hs
    · exact hacc t ht
  apply hall
  unfold merge at hs
  dsimp only at hs
  split at hs <;> exact List.mem_of_mem_take hs

theorem status_merge (a b : Reading) : (a.merge b).status = a.status := by
  unfold merge
  dsimp only
  split <;> rfl

theorem rest_merge (a b : Reading) : (a.merge b).rest = a.rest := by
  unfold merge
  dsimp only
  split <;> rfl

theorem landmarks_merge (a b : Reading) : (a.merge b).landmarks = a.landmarks := by
  unfold merge
  dsimp only
  split <;> rfl

theorem IsAt.merge (ha : a.IsAt text rest) (hb : b.IsAt text rest) : (a.merge b).IsAt text rest := by
  refine ⟨(status_merge a b).trans ha.active, ?_⟩
  intro s hs
  obtain hs | hs := mem_of_mem_merge hs
  · exact ha.read s hs
  · exact hb.read s hs

/-- All stacks of a reading end at the same place. -/
theorem bytes_reach (hr : r.IsSound text) (hs : s ∈ r.divisions) :
    r.reach.bytes = (Extent.ofChars (Stack.source s)).bytes := by
  obtain ⟨u, us, hdivisions⟩ := List.exists_cons_of_ne_nil (List.ne_nil_of_mem hs)
  have hu : u ∈ r.divisions := by
    rw [hdivisions]
    exact List.mem_cons_self
  have hsame : Stack.source u = Stack.source s :=
    List.append_cancel_right ((hr.read u hu).trans (hr.read s hs).symm)
  rw [reach, top, hdivisions, List.headD_cons, Stack.bytes_top (hr.divisions u hu), hsame]

/-- Readings that are joined stand at the same place. -/
theorem isSound_merge (ha : a.IsSound text) (hb : b.IsSound text) (h : a.mergeable b) :
    (a.merge b).IsSound text := by
  simp only [mergeable, Bool.and_eq_true, beq_iff_eq, Bool.not_eq_true',
    List.isEmpty_eq_false_iff] at h
  obtain ⟨⟨⟨⟨⟨hactive, -⟩, hne⟩, hreach⟩, -⟩, -⟩ := h
  obtain ⟨u, hu⟩ := List.exists_mem_of_ne_nil _ hne
  refine ⟨?_, ?_, not_paused ((status_merge a b).trans (status_of_isActive hactive)), ?_⟩
  · intro s hs
    exact (mem_of_mem_merge hs).elim (ha.divisions s) (hb.divisions s)
  · intro s hs
    rw [rest_merge]
    obtain hs | hs := mem_of_mem_merge hs
    · exact ha.read s hs
    · rw [bytes_reach ha hu, bytes_reach hb hs] at hreach
      rw [← Extent.eq_of_append_eq_append ((ha.read u hu).trans (hb.read s hs).symm) hreach]
      exact ha.read u hu
  · rw [landmarks_merge]
    exact ha.landmarks

/-! ### The next lexeme -/

theorem isSound_pause (hr : r.IsSound text) (hl : l.Begins rest cs) (hat : r.IsAt text cs) :
    (r.pause l rest).IsSound text := by
  refine ⟨hr.divisions, hr.read, ?_, hr.landmarks⟩
  intro l' rest' h
  cases h
  exact ⟨cs, hl, hat.read⟩

theorem source_push_lexeme (hl : l.Begins rest cs) (h : Stack.source s ++ cs = text) :
    Stack.source s ++ (l.gap ++ l.text) ++ rest = text := by
  rw [List.append_assoc, hl.source, h]

theorem isSound_shift (hr : r.IsSound text) {kind : Terminal} {extra : Bool} {state : ItemSet}
    (hl : l.Begins rest cs) (hat : r.IsAt text cs) (hkind : l.kind = some kind)
    (hextra : extra → kind = .lineComment ∨ kind = .blockComment) (hstate : state.Lawful) :
    (r.shift kind l extra state rest).IsSound text := by
  refine ⟨?_, ?_, not_paused hat.active, hr.landmarks⟩
  · intro s hs
    obtain ⟨s', hs', rfl⟩ := List.mem_map.1 hs
    refine Stack.isSound_push (hr.divisions s' hs') ⟨⟨rfl, rfl, ?_⟩, ?_, .token hl.spelled.gap⟩ hstate
    · exact fun h => Or.inl (hextra h)
    · exact .token (hl.spelled.text kind hkind)
  · intro s hs
    obtain ⟨s', hs', rfl⟩ := List.mem_map.1 hs
    rw [Stack.source_push, source_token]
    exact source_push_lexeme hl (hat.read s' hs')

theorem begins_lexeme (r : Reading) : r.lexeme.1.Begins r.lexeme.2 r.rest := Lexeme.begins_next _ _ _ _

end Reading

end EndpointAtlas.Syntax
