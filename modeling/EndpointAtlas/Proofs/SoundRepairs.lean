import EndpointAtlas.Proofs.SoundParser

/-!
# Repairs keep readings sound

A repair puts in a missing token, goes back and skips what was read, or skips the lexeme at hand. Each
marks what it does in the trees, so nothing that a repair did passes for what the grammar derives, and
what is skipped stays in the text of the tree.
-/

namespace EndpointAtlas.Syntax

open Grammar Tree

namespace Parser

variable {text rest cs : List Char} {p q : Parser} {r back : Reading} {lexeme : Lexeme} {i u v w n : Nat}

/-! ### Going back -/

theorem lawful_landmarksOf {s : Stack} (hs : Stack.IsSound s) :
    ∀ m ∈ landmarksOf s, m.state.Lawful := by
  have hgo (depth : Nat) : ∀ m ∈ landmarksOf.go depth s, m.state.Lawful := by
    induction s generalizing depth with
    | nil => exact List.forall_mem_nil _
    | cons f s ih =>
        obtain ⟨hf, hrest⟩ := hs.uncons
        rw [landmarksOf.go]
        split
        · exact List.forall_mem_nil _
        · exact List.forall_mem_cons.2 ⟨hf.state, ih hrest _⟩
  exact hgo 0

theorem lawful_landmarks (hr : r.IsSound text) : ∀ m ∈ landmarks r, m.state.Lawful := by
  refine forall_mem_foldl (fun m : Landmark => m.state.Lawful) (List.forall_mem_nil _) ?_
  intro acc hacc m hm
  obtain ⟨depth, -, hdepth⟩ := List.mem_flatMap.1 hm
  obtain ⟨s, hs, hmark⟩ := List.mem_flatMap.1 (List.mem_filter.1 hdepth).1
  split
  · exact hacc
  · have hlawful := lawful_landmarksOf (hr.divisions s hs) m hmark
    exact List.forall_mem_append.2 ⟨hacc, List.forall_mem_singleton.2 hlawful⟩

theorem isSound_joinSkipped {pieces : List (Label × Tree)} {below : Stack}
    (hpieces : ∀ p ∈ pieces, IsPiece p) (hbelow : Stack.IsSound below) :
    (∀ p ∈ (joinSkipped pieces below).1, IsPiece p) ∧
      Stack.IsSound (joinSkipped pieces below).2 := by
  cases below with
  | nil => exact ⟨hpieces, hbelow⟩
  | cons f under =>
      obtain ⟨hf, hunder⟩ := hbelow.uncons
      rw [joinSkipped]
      split
      · next label summary children hpiece =>
        have hskipped := hf.piece _ hpiece
        have hchildren := isPiece_of_skipped hskipped.sound hskipped.neat
        exact ⟨List.forall_mem_append.2 ⟨hchildren, hpieces⟩, hunder⟩
      · exact ⟨hpieces, hbelow⟩

theorem source_joinSkipped (pieces : List (Label × Tree)) (below : Stack) :
    Stack.source (joinSkipped pieces below).2 ++ sourceOf (joinSkipped pieces below).1 =
      Stack.source below ++ sourceOf pieces := by
  cases below with
  | nil => rfl
  | cons f under =>
      rw [joinSkipped]
      split
      · next label summary children hpiece =>
        rw [Stack.source_cons, hpiece, sourceOf_append, Option.toList_some, sourceOf_cons, sourceOf_nil,
          List.append_nil, List.append_assoc]
        rfl
      · rfl

theorem isSound_skipPieces {pieces : List (Label × Tree)} {below : Stack} {goal : ItemSet}
    (hpieces : ∀ p ∈ pieces, IsPiece p) (hbelow : Stack.IsSound below) (hgoal : goal.Lawful) :
    Stack.IsSound (skipPieces pieces below goal) := by
  have hextras : ∀ p ∈ (Stack.splitExtras pieces).2, IsPiece p :=
    fun p hp => hpieces p (Stack.mem_of_mem_splitExtras (.inr hp))
  refine Stack.isSound_foldl_push ?_ hextras hgoal
  split
  · exact hbelow
  · have hbody : ∀ p ∈ (Stack.splitExtras pieces).1, IsPiece p :=
      fun p hp => hpieces p (Stack.mem_of_mem_splitExtras (.inl hp))
    exact Stack.isSound_push hbelow (isPiece_skip hbody) hgoal

theorem source_skipPieces (pieces : List (Label × Tree)) (below : Stack) (goal : ItemSet) :
    Stack.source (skipPieces pieces below goal) = Stack.source below ++ sourceOf pieces := by
  rw [skipPieces, Stack.source_foldl_push, ← Stack.sourceOf_splitExtras pieces, ← List.append_assoc]
  congr 1
  split
  · next hbody => rw [hbody, sourceOf_nil, List.append_nil]
  · rw [Stack.source_push, source_skip]

/-- What is gone back over on one stack is put back as skipped. -/
theorem exists_of_mem_goBack {depth : Nat} {goal : ItemSet} (hback : back ∈ goBack r depth goal) :
    ∃ s ∈ r.divisions, ∃ pieces below, Stack.pop depth s [] = some (pieces, below) ∧
      back = { r with
        divisions := [skipPieces (joinSkipped pieces below).1 (joinSkipped pieces below).2 goal]
        status := .active
        landmarks := [] } := by
  unfold goBack at hback
  obtain ⟨⟨pieces, below⟩, hmem, rfl⟩ := List.mem_map.1 hback
  have hpopped : ∃ s ∈ r.divisions, Stack.pop depth s [] = some (pieces, below) := by
    refine forall_mem_foldl (fun c : List (Label × Tree) × Stack =>
      ∃ s ∈ r.divisions, Stack.pop depth s [] = some c) (List.forall_mem_nil _) ?_ _ hmem
    intro acc hacc c hc
    obtain ⟨s, hs, hpop⟩ := List.mem_filterMap.1 hc
    split
    · exact hacc
    · refine List.forall_mem_append.2 ⟨hacc, List.forall_mem_singleton.2 ⟨s, hs, ?_⟩⟩
      split at hpop
      · next hpopped =>
        split at hpop
        · cases hpop
          exact hpopped
        · cases hpop
      · cases hpop
  obtain ⟨s, hs, hpop⟩ := hpopped
  exact ⟨s, hs, pieces, below, hpop, rfl⟩

/-- A stack that was gone back on has all of its text. -/
theorem source_goBack {depth : Nat} {goal : ItemSet} {s below : Stack} {pieces : List (Label × Tree)}
    (hpop : Stack.pop depth s [] = some (pieces, below)) :
    Stack.source (skipPieces (joinSkipped pieces below).1 (joinSkipped pieces below).2 goal) =
      Stack.source s := by
  rw [source_skipPieces, source_joinSkipped, ← Stack.source_pop hpop, sourceOf_nil, List.append_nil]

/-- What is taken back is sound, together with what was skipped right before it. -/
theorem isSound_goBack (hr : r.IsSound text) {depth : Nat} {goal : ItemSet} (hgoal : goal.Lawful) :
    ∀ back ∈ goBack r depth goal, back.IsSound text := by
  intro back hback
  obtain ⟨s, hs, pieces, below, hpop, rfl⟩ := exists_of_mem_goBack hback
  obtain ⟨hpieces, hbelow⟩ := Stack.isSound_pop (hr.divisions s hs) (List.forall_mem_nil _) hpop
  obtain ⟨hpieces, hbelow⟩ := isSound_joinSkipped hpieces hbelow
  apply Reading.isSound_active
  · exact List.forall_mem_singleton.2 (isSound_skipPieces hpieces hbelow hgoal)
  · rw [List.forall_mem_singleton, source_goBack hpop]
    exact hr.read s hs

theorem isAt_goBack (hr : r.IsAt text rest) {depth : Nat} {goal : ItemSet} :
    ∀ back ∈ goBack r depth goal, back.IsAt text rest := by
  intro back hback
  obtain ⟨s, hs, pieces, below, hpop, rfl⟩ := exists_of_mem_goBack hback
  refine ⟨rfl, List.forall_mem_singleton.2 ?_⟩
  rw [source_goBack hpop]
  exact hr.read s hs

/-! ### The end of the text -/

theorem isWhole_root {pieces : List (Label × Tree)} (hpieces : ∀ p ∈ pieces, IsTopmost p) :
    (accept.root pieces).IsWhole := by
  have hback : ∀ p ∈ pieces.reverse, IsTopmost p := fun p hp => hpieces p (List.mem_reverse.1 hp)
  have hafter : ∀ p ∈ pieces.reverse.takeWhile fun q => q.1.extra, IsTopmost p :=
    fun p hp => hback p (List.takeWhile_subset _ hp)
  have hbefore : ∀ p ∈ pieces.reverse.dropWhile fun q => q.1.extra, IsTopmost p :=
    fun p hp => hback p (List.dropWhile_subset _ hp)
  unfold accept.root
  dsimp only
  split
  · next label kind summary children earlier hsplit =>
    rw [hsplit, List.forall_mem_cons] at hbefore
    obtain ⟨hnode, hearlier⟩ := hbefore
    have hchildren : ∀ child ∈ children, IsTopmost child := by
      cases hnode.sound with
      | node _ hallows hfills _ hsound =>
          exact fun child hchild => ⟨hfills.isPlaced hallows child hchild, hsound child hchild,
            hnode.neat.of_mem hchild⟩
    refine .node (hasRepair_ofChildren kind 0 _) ?_
    simp only [List.forall_mem_append, List.mem_reverse]
    exact ⟨⟨hearlier, hchildren⟩, hafter⟩
  · exact isWhole_skip _
  · exact isWhole_skip _

theorem source_root (pieces : List (Label × Tree)) : (accept.root pieces).source = sourceOf pieces := by
  have hsplit : pieces = (pieces.reverse.dropWhile fun q => q.1.extra).reverse ++
      (pieces.reverse.takeWhile fun q => q.1.extra).reverse := by
    rw [← List.reverse_append, List.takeWhile_append_dropWhile, List.reverse_reverse]
  have hspread {earlier children : List (Label × Tree)} {piece : Label × Tree}
      (hbefore : pieces.reverse.dropWhile (fun q => q.1.extra) = piece :: earlier)
      (hpiece : piece.2.source = sourceOf children) :
      sourceOf (earlier.reverse ++ children ++
        (pieces.reverse.takeWhile fun q => q.1.extra).reverse) = sourceOf pieces := by
    conv_rhs => rw [hsplit, hbefore]
    simp [hpiece]
  unfold accept.root
  dsimp only
  split
  · next hbefore =>
    rw [source_ofChildren]
    exact hspread hbefore rfl
  · next hbefore =>
    rw [source_skip]
    exact hspread hbefore rfl
  · rw [source_skip, ← hsplit]

theorem better_cases (a b : Tree) : better a b = a ∨ better a b = b := by
  unfold better
  split
  · exact .inr rfl
  split
  · exact .inl rfl
  split
  · exact .inr rfl
  · exact .inl rfl

theorem isSound_accept (hp : p.IsSound text) (hl : lexeme.Begins rest cs)
    (hv : (p.reading v).IsAt text cs) (hlast : lexeme.kind = some .endOfInput) :
    (accept p v lexeme).IsSound text := by
  have hr := isSound_reading hp v
  unfold accept
  dsimp only
  refine isSound_set ?_ (Reading.isSound_halted hr) v
  apply List.foldlRecOn (motive := IsSound text) _ _ hp
  intro acc hacc t ht
  obtain ⟨s, hs, rfl⟩ := List.mem_map.1 ht
  have hending : IsTopmost ({ extra := true }, .token .endOfInput lexeme.gap lexeme.text) :=
    ⟨.loose rfl rfl, .token (Lexeme.IsFree.spells (by decide) lexeme.text), .token hl.spelled.gap⟩
  have hwhole : IsWhole (accept.root (Stack.pieces s ++
      [({ extra := true }, .token .endOfInput lexeme.gap lexeme.text)])) :=
    isWhole_root (List.forall_mem_append.2 ⟨fun piece hpiece =>
      (Stack.isPiece_pieces (hr.divisions s hs) piece hpiece).isTopmost,
      List.forall_mem_singleton.2 hending⟩)
  have hsource : (accept.root (Stack.pieces s ++
      [({ extra := true }, .token .endOfInput lexeme.gap lexeme.text)])).source = text := by
    have hread := Reading.source_push_lexeme hl (hv.read s hs)
    rw [hl.last hlast, List.append_nil] at hread
    rw [source_root, sourceOf_append, sourceOf_cons, sourceOf_nil, List.append_nil, source_token]
    exact hread
  refine ⟨hacc.readings, ?_⟩
  intro t ht
  dsimp only at ht
  split at ht
  · next old hold =>
    cases ht
    obtain h | h := better_cases old _
    · rw [h]
      exact hacc.finished old hold
    · rw [h]
      exact ⟨hwhole, hsource⟩
  · cases ht
    exact ⟨hwhole, hsource⟩

/-! ### Skipping the lexeme at hand -/

theorem isPiece_lexeme (hl : lexeme.Spelled) :
    IsPiece ({ extra := isComment lexeme }, Lexeme.tree lexeme) := by
  rw [Lexeme.tree]
  split
  · next t hkind =>
    refine ⟨⟨rfl, rfl, fun hcomment => .inl ?_⟩, .token (hl.text t hkind), .token hl.gap⟩
    simpa [isComment, hkind, Tree.IsComment] using hcomment
  · exact ⟨⟨rfl, rfl, fun _ => .inr rfl⟩, .stray _ _, .stray⟩

theorem source_lexeme (lexeme : Lexeme) : (Lexeme.tree lexeme).source = lexeme.gap ++ lexeme.text := by
  rw [Lexeme.tree]
  split
  · exact source_token _ _ _
  · exact source_stray _ _

theorem isSound_skipLexeme (hr : r.IsSound text) (hl : lexeme.Begins rest cs) (hat : r.IsAt text cs) :
    (skipLexeme r lexeme rest).IsSound text := by
  have hskipped : IsPiece ({}, skip true [({ extra := isComment lexeme }, Lexeme.tree lexeme)]) :=
    isPiece_skip (List.forall_mem_singleton.2 (isPiece_lexeme hl.spelled))
  have hread {s : Stack} (hs : s ∈ r.divisions) :
      Stack.source s ++ (lexeme.gap ++ lexeme.text) ++ rest = text :=
    Reading.source_push_lexeme hl (hat.read s hs)
  have hdivision : ∀ s ∈ (skipLexeme r lexeme rest).divisions,
      Stack.IsSound s ∧ Stack.source s ++ rest = text := by
    intro s hs
    obtain ⟨⟨s, t⟩, hmem, rfl⟩ := List.mem_map.1 hs
    dsimp only at hmem ⊢
    rw [Stack.source_push]
    split at hmem
    · obtain ⟨u, hu, heq⟩ := List.mem_map.1 hmem
      cases heq
      refine ⟨Stack.isSound_push (hr.divisions s hu) hskipped ItemSet.lawful_lost, ?_⟩
      rw [source_skip, sourceOf_cons, sourceOf_nil, List.append_nil, source_lexeme]
      exact hread hu
    · obtain ⟨⟨pieces, below⟩, hpopped, heq⟩ := List.mem_map.1 hmem
      cases heq
      obtain ⟨u, hu, hpop⟩ := List.mem_filterMap.1 (List.mem_of_mem_take hpopped)
      obtain ⟨hpieces, hbelow⟩ :=
        Stack.isSound_pop (hr.divisions u hu) (List.forall_mem_nil _) hpop
      have hsource := Stack.source_pop hpop
      rw [sourceOf_nil, List.append_nil] at hsource
      have hboth := List.forall_mem_append.2 ⟨hpieces, List.forall_mem_singleton.2 hskipped⟩
      refine ⟨Stack.isSound_push hbelow (isPiece_skip hboth) ItemSet.lawful_lost, ?_⟩
      simp only [source_skip, sourceOf_append, sourceOf_cons, sourceOf_nil, List.append_nil,
        source_lexeme]
      rw [← List.append_assoc, ← hsource]
      exact hread hu
  exact ⟨fun s hs => (hdivision s hs).1, fun s hs => (hdivision s hs).2,
    Reading.not_paused hat.active, hr.landmarks⟩

theorem isSound_search (hp : p.IsSound text) (hr : r.IsSound text) {ms : List Landmark}
    (hms : ∀ m ∈ ms, m.state.Lawful) (v progress cost : Nat) (lexeme : Lexeme) :
    let found := recover.search v lexeme p r progress cost ms
    found.1.IsSound text ∧ (r.IsAt text rest → (p.reading v).IsAt text rest →
      (found.1.reading v).IsAt text rest) := by
  induction ms with
  | nil => exact ⟨hp, fun _ hv => hv⟩
  | cons m ms ih =>
      obtain ⟨hm, hrest⟩ := List.forall_mem_cons.1 hms
      have hnext := ih hrest
      dsimp only at hnext ⊢
      rw [recover.search]
      split
      · exact hnext
      dsimp only
      split
      · exact hnext
      split
      · exact ⟨hp, fun _ hv => hv⟩
      have hback (depth : Nat) : ((goBack r depth m.state).foldl append p).IsSound text ∧
          (r.IsAt text rest → (p.reading v).IsAt text rest →
            (((goBack r depth m.state).foldl append p).reading v).IsAt text rest) := by
        apply List.foldlRecOn (motive := fun acc : Parser => acc.IsSound text ∧
          (r.IsAt text rest → (p.reading v).IsAt text rest → (acc.reading v).IsAt text rest)) _ _
          ⟨hp, fun _ hv => hv⟩
        rintro acc ⟨hacc, hkept⟩ back hback
        exact ⟨isSound_append hacc (isSound_goBack hr hm back hback),
          fun hat hv => isAt_append (isAt_goBack hat back hback) (hkept hat hv)⟩
      cases lexeme.kind with
      | none => exact hnext
      | some t =>
          dsimp only
          split
          · split
            · exact hnext
            · exact hback _
          · exact hnext

theorem isSound_recover (hp : p.IsSound text) (hl : lexeme.Begins rest cs)
    (hv : (p.reading v).IsAt text cs) : (recover p v lexeme rest).IsSound text := by
  have hsettled : (p.set v (p.reading v).settle).IsSound text :=
    isSound_set hp (Reading.isSound_settle (isSound_reading hp v)) v
  have hat : ((p.set v (p.reading v).settle).reading v).IsAt text cs :=
    isAt_set ⟨hv.active, hv.read⟩ hv
  unfold recover
  dsimp only
  generalize p.set v (p.reading v).settle = p at hsettled hat
  have hr := isSound_reading hsettled v
  have hfound : let found := (if lexeme.kind.isSome then
      recover.search v lexeme p (p.reading v) (p.reading v).progress (p.reading v).cost
        (p.reading v).landmarks
      else (p, false))
      found.1.IsSound text ∧ (found.1.reading v).IsAt text cs := by
    dsimp only
    split
    · obtain ⟨hsound, hkept⟩ := isSound_search hsettled hr hr.landmarks v
        (p.reading v).progress (p.reading v).cost lexeme
      exact ⟨hsound, hkept hat hat⟩
    · exact ⟨hsettled, hat⟩
  generalize (if lexeme.kind.isSome then
      recover.search v lexeme p (p.reading v) (p.reading v).progress (p.reading v).cost
        (p.reading v).landmarks
      else (p, false)) = found at hfound
  obtain ⟨hfound, hplace⟩ := hfound
  split
  · next hlast =>
    have hsource (s : Stack) : Stack.source (Stack.push s {} (Tree.skip false []) .start) =
        Stack.source s := by
      rw [Stack.source_push, source_skip, sourceOf_nil, List.append_nil]
    refine isSound_accept (isSound_set hfound ?_ v) hl (isAt_set (hplace.mapStacks hsource) hplace)
      (eq_of_beq hlast)
    refine Reading.isSound_mapStacks (isSound_reading hfound v) (fun s hs => ?_) hsource
    exact Stack.isSound_push hs (isPiece_skip (List.forall_mem_nil _)) ItemSet.lawful_start
  split
  · exact isSound_set hfound (Reading.isSound_halted hr) v
  split
  · exact isSound_set hfound (Reading.isSound_halted hr) v
  · exact isSound_set hfound (isSound_skipLexeme hr hl hat) v

/-! ### Putting in what is missing -/

theorem areAt_putIn (hp : AreAt text rest u n p) (hw : w = u ∨ n ≤ w) {ahead : Terminal}
    (h : putIn p w ahead = some q) : AreAt text rest u n q := by
  have hr := isSound_reading hp.sound w
  unfold putIn at h
  obtain ⟨t, -, ht⟩ := List.exists_of_findSome?_eq_some h
  have hstate : ((p.reading w).state.advance (.terminal t)).Lawful :=
    ItemSet.lawful_advance (Reading.lawful_state hr) _
  have hsource (s : Stack) : Stack.source (Stack.push s {} (.missing t)
      ((p.reading w).state.advance (.terminal t))) = Stack.source s := by
    rw [Stack.source_push, source_missing, List.append_nil]
  have hput := Reading.isSound_mapStacks hr
    (fun s hs => Stack.isSound_push hs ((Sound.missing t).isPiece .missing) hstate) hsource
  have hat := (hp.readings w hw).mapStacks hsource
  have happended : AreAt text rest u n (p.append { ((p.reading w).mapStacks fun s =>
      Stack.push s {} (.missing t) ((p.reading w).state.advance (.terminal t))) with
      landmarks := [] }) := by
    refine ⟨isSound_append hp.sound ?_, ?_, fun i hi => isAt_append ?_ (hp.readings i hi)⟩
    · exact ⟨hput.divisions, hput.read, hput.paused, List.forall_mem_nil _⟩
    · rw [size_append]
      exact hp.size.trans (Nat.le_succ _)
    · exact ⟨hat.active, hat.read⟩
  dsimp only at ht
  rw [Option.ite_none_left_eq_some, Option.ite_none_right_eq_some, Option.some_inj] at ht
  obtain ⟨-, -, rfl⟩ := ht
  exact areAt_completeAll happended (.inr hp.size) (hp.size.trans (Nat.le_succ _)) (.inl rfl) _ _ _

theorem areAt_putInOne (hp : AreAt text rest u n p) {targets : List Nat}
    (htargets : ∀ w ∈ targets, w = u ∨ n ≤ w) (ahead : Option Terminal) :
    AreAt text rest u n (putInOne p targets ahead) := by
  apply List.foldlRecOn (motive := fun acc : Parser × Bool => AreAt text rest u n acc.1) _ _ hp
  rintro ⟨acc, put⟩ hacc w hw
  dsimp only
  split
  · next q hq =>
    rw [Option.ite_none_left_eq_some] at hq
    obtain ⟨t, -, ht⟩ := Option.bind_eq_some_iff.1 hq.2
    exact areAt_putIn hacc (htargets w hw) ht
  · exact hacc

/-! ### A whole repair -/

theorem areAt_loseAll (hp : AreAt text rest u n p) {targets : List Nat}
    (htargets : ∀ w ∈ targets, w = u ∨ n ≤ w) : AreAt text rest u n (loseAll p targets) := by
  apply List.foldlRecOn (motive := AreAt text rest u n) _ _ hp
  intro acc hacc w hw
  have hat := (hacc.readings w (htargets w hw)).mapStacks Stack.source_lose
  refine ⟨isSound_set hacc.sound (Reading.isSound_nodesAtRepair ?_ _) w, ?_, fun i hi =>
    isAt_set ⟨hat.active, hat.read⟩ (hacc.readings i hi)⟩
  · exact Reading.isSound_mapStacks (isSound_reading hacc.sound w) (fun _ => Stack.isSound_lose)
      Stack.source_lose
  · rw [size_set]
    exact hacc.size

theorem areAt_gather (hp : AreAt text rest u n p) (count : Nat) :
    AreAt text rest u n (gather p u n count) := by
  apply List.foldlRecOn (motive := AreAt text rest u n) _ _ hp
  intro acc hacc _ _
  cases hmerged : acc.merge? u n with
  | none => exact hacc.remove (Nat.le_refl n)
  | some joined => exact hacc.merge? hmerged (Nat.le_refl n)

theorem isSound_repair (hp : p.IsSound text) (hl : lexeme.Begins rest cs)
    (hv : (p.reading v).IsAt text cs) : (repair p v lexeme rest).IsSound text := by
  have hstart : AreAt text cs v p.size p := by
    refine ⟨hp, Nat.le_refl _, ?_⟩
    rintro i (rfl | hi)
    · exact hv
    · rw [reading_of_size_le hi]
      exact Reading.isAt_default
  have hcompleted := areAt_completeAll hstart (.inl ⟨rfl, rfl⟩) (Nat.le_refl _) (.inl rfl) 200 0 false
  have hready : ∀ targets count, (∀ w ∈ targets, w = v ∨ p.size ≤ w) → AreAt text cs v p.size
      ((((completeAll 200 p v v p.size 0 none false).1.putInOne targets lexeme.kind).loseAll
        targets).gather v p.size count) := fun targets count htargets =>
    areAt_gather (areAt_loseAll (areAt_putInOne hcompleted htargets _) htargets) count
  have htargets (count : Nat) : ∀ w ∈ v :: (List.range count).filter (p.size ≤ ·),
      w = v ∨ p.size ≤ w := by
    intro w hw
    rw [List.mem_cons, List.mem_filter, decide_eq_true_eq] at hw
    exact hw.imp_right And.right
  unfold repair
  dsimp only
  have hgathered := hready _ ((completeAll 200 p v v p.size 0 none false).1.size - p.size)
    (htargets (completeAll 200 p v v p.size 0 none false).1.size)
  generalize ((((completeAll 200 p v v p.size 0 none false).1.putInOne _ lexeme.kind).loseAll
    _).gather v p.size _) = p' at hgathered
  have hr := isSound_reading hgathered.sound v
  have hat := hgathered.readings v (.inl rfl)
  refine isSound_recover (isSound_set hgathered.sound ?_ v) hl (isAt_set ⟨hat.active, hat.read⟩ hat)
  exact ⟨hr.divisions, hr.read, hr.paused, lawful_landmarks hr⟩

end Parser

end EndpointAtlas.Syntax
