import EndpointAtlas.Proofs.SoundReadings
import EndpointAtlas.Syntax.Parser

/-!
# Completing productions keeps readings sound

A parser is sound if all its readings are and its finished tree, if any, is made of sound trees that
have the whole text in them. Dropping and joining readings keeps it so, and so does completing a
production, by a rule of the grammar. None of this moves a reading on in the text.
-/

namespace EndpointAtlas.Syntax

open Grammar Tree

/-! ### Whole trees -/

/-- A tree below the root. -/
structure Tree.IsTopmost (child : Label × Tree) : Prop where
  placed : IsPlaced child.1 child.2
  sound : Sound child.2
  neat : Neat child.2

theorem Tree.IsPiece.isTopmost {p : Label × Tree} (h : IsPiece p) : IsTopmost p :=
  ⟨h.loose.isPlaced, h.sound, h.neat⟩

/-- The tree of a whole text: sound trees beside each other, or a skipped stretch. -/
inductive Tree.IsWhole : Tree → Prop
  | node {kind : Construct} {summary : Summary} {children : List (Label × Tree)} :
      summary.repaired = (children.any fun child => child.2.hasRepair) →
      (∀ child ∈ children, IsTopmost child) → IsWhole (node kind summary children)
  | skipped {summary : Summary} {children : List (Label × Tree)} :
      summary.repaired = true → IsWhole (skipped false summary children)

theorem Tree.isWhole_skip (children : List (Label × Tree)) : IsWhole (skip false children) :=
  .skipped (hasRepair_skip false children)

structure Parser.IsSound (text : List Char) (p : Parser) : Prop where
  readings : ∀ r ∈ p.readings, r.IsSound text
  finished : ∀ t ∈ p.finished, t.IsWhole ∧ t.source = text

namespace Parser

variable {text rest : List Char} {p q : Parser} {r a b : Reading} {i u v w n : Nat}

/-! ### The list of readings -/

theorem isSound_reading (hp : p.IsSound text) (v : Nat) : (p.reading v).IsSound text := by
  rw [reading, List.getD_eq_getElem?_getD]
  cases hreading : p.readings[v]? with
  | none => exact Reading.isSound_default
  | some r => exact hp.readings r (List.mem_of_getElem? hreading)

theorem isSound_set (hp : p.IsSound text) (hr : r.IsSound text) (v : Nat) :
    (p.set v r).IsSound text := by
  refine ⟨?_, hp.finished⟩
  intro r' hr'
  obtain h | rfl := List.mem_or_eq_of_mem_set hr'
  · exact hp.readings r' h
  · exact hr

theorem isSound_remove (hp : p.IsSound text) (v : Nat) : (p.remove v).IsSound text :=
  ⟨fun r hr => hp.readings r (List.mem_of_mem_eraseIdx hr), hp.finished⟩

theorem isSound_append (hp : p.IsSound text) (hr : r.IsSound text) : (p.append r).IsSound text := by
  refine ⟨?_, hp.finished⟩
  intro r' hr'
  rw [append, List.mem_append, List.mem_singleton] at hr'
  obtain hr' | rfl := hr'
  · exact hp.readings r' hr'
  · exact hr

theorem isSound_replace (hp : p.IsSound text) (v w : Nat) : (p.replace v w).IsSound text :=
  isSound_remove (isSound_set hp (isSound_reading hp w) v) w

theorem eq_of_merge? (h : p.merge? v w = some q) : (p.reading v).mergeable (p.reading w) ∧
    q = (p.set v ((p.reading v).merge (p.reading w))).remove w := by
  unfold merge? at h
  dsimp only at h
  split at h
  · next hmergeable =>
    cases h
    exact ⟨hmergeable, rfl⟩
  · cases h

theorem isSound_merge? (hp : p.IsSound text) (h : p.merge? v w = some q) : q.IsSound text := by
  obtain ⟨hmergeable, rfl⟩ := eq_of_merge? h
  have hmerged := Reading.isSound_merge (isSound_reading hp v) (isSound_reading hp w) hmergeable
  exact isSound_remove (isSound_set hp hmerged v) w

/-! ### Where readings are -/

theorem isAt_append (hr : r.IsAt text rest) (hi : (p.reading i).IsAt text rest) :
    ((p.append r).reading i).IsAt text rest := by
  rw [reading, append, List.getD_eq_getElem?_getD, List.getElem?_append]
  split
  · rwa [← List.getD_eq_getElem?_getD]
  · cases i - p.readings.length with
    | zero => exact hr
    | succ _ => exact Reading.isAt_default

theorem isAt_set (hr : r.IsAt text rest) (hi : (p.reading i).IsAt text rest) :
    ((p.set v r).reading i).IsAt text rest := by
  rw [reading, set, List.getD_eq_getElem?_getD, List.getElem?_set]
  split
  · split
    · exact hr
    · exact Reading.isAt_default
  · rwa [← List.getD_eq_getElem?_getD]

/-- The readings after one that is dropped move up. -/
theorem isAt_remove (hi : i < w → (p.reading i).IsAt text rest)
    (hnext : w ≤ i → (p.reading (i + 1)).IsAt text rest) :
    ((p.remove w).reading i).IsAt text rest := by
  rw [reading, remove, List.getD_eq_getElem?_getD, List.getElem?_eraseIdx]
  split
  · next hlt =>
    rw [← List.getD_eq_getElem?_getD]
    exact hi hlt
  · next hle =>
    rw [← List.getD_eq_getElem?_getD]
    exact hnext (Nat.le_of_not_lt hle)

theorem isAt_replace (hw : (p.reading w).IsAt text rest) (hi : (p.reading i).IsAt text rest)
    (hnext : w ≤ i → (p.reading (i + 1)).IsAt text rest) :
    ((p.replace v w).reading i).IsAt text rest :=
  isAt_remove (fun _ => isAt_set hw hi) fun hle => isAt_set hw (hnext hle)

theorem isAt_merge? (h : p.merge? v w = some q) (hw : (p.reading w).IsAt text rest)
    (hi : (p.reading i).IsAt text rest) (hnext : w ≤ i → (p.reading (i + 1)).IsAt text rest) :
    (q.reading i).IsAt text rest := by
  have hset {j : Nat} (hj : (p.reading j).IsAt text rest) :
      ((p.set v ((p.reading v).merge (p.reading w))).reading j).IsAt text rest := by
    by_cases hv : v = j
    · subst hv
      exact isAt_set (hj.merge hw) hj
    · rw [reading, set, List.getD_eq_getElem?_getD, List.getElem?_set_ne hv,
        ← List.getD_eq_getElem?_getD]
      exact hj
  obtain ⟨-, rfl⟩ := eq_of_merge? h
  exact isAt_remove (fun _ => hset hi) fun hle => hset (hnext hle)

/-! ### Completing productions -/

structure Completion.IsSound (c : Completion) : Prop where
  tree : Sound c.tree
  neat : Neat c.tree
  extras : ∀ piece ∈ c.extras, IsPiece piece
  below : Stack.IsSound c.below

/-- The text of a completion, with what is below it and the extras after it. -/
def Completion.source (c : Completion) : List Char :=
  Stack.source c.below ++ c.tree.source ++ sourceOf c.extras

theorem isSound_complete {q : Production} {s : Stack} {c : Completion} (hq : q.IsRule)
    (hs : Stack.IsSound s) (h : complete q s = some c) : c.IsSound := by
  obtain ⟨hextras, hrest⟩ := Stack.isSound_popExtras hs (List.forall_mem_nil _)
  unfold complete at h
  dsimp only at h
  split at h
  · next pieces below hpop =>
    obtain ⟨hpieces, hbelow⟩ := Stack.isSound_pop hrest (List.forall_mem_nil _) hpop
    obtain ⟨children, hlabelled, rfl⟩ := Option.map_eq_some_iff.1 h
    have hfills := fills_of_labelled hlabelled fun piece hpiece => (hpieces piece hpiece).loose
    obtain ⟨htrees, howns⟩ := map_of_labelled hlabelled
    -- The production is complete, so no piece asked for was missing.
    have hcount : pieces.countP isOwn = q.steps.length := by
      have hcounts := congrArg (List.countP id) howns
      rw [List.countP_map, List.countP_map] at hcounts
      exact hcounts.symm.trans hfills.countP
    have hpiece {child : Label × Tree} (hchild : child ∈ children) :
        ∃ piece ∈ pieces, piece.2 = child.2 := by
      have hmem : child.2 ∈ pieces.map (·.2) := by
        rw [← htrees]
        exact List.mem_map_of_mem hchild
      exact List.mem_map.1 hmem
    refine ⟨.node (isSummary_summarize false q.bias children) hq hfills ?_ fun child hchild => ?_,
      .node ?_ fun child hchild => ?_, hextras, hbelow⟩
    · have hlast := Stack.isOwn_getLast?_of_pop hpop Stack.isOwn_top_popExtras hcount
      intro last hmem
      have hsame := congrArg List.getLast? howns
      rw [List.getLast?_map, List.getLast?_map, Option.mem_def.1 hmem] at hsame
      obtain ⟨piece, hpiece, hown⟩ := Option.map_eq_some_iff.1 hsame.symm
      rw [← hown]
      exact hlast piece hpiece
    · obtain ⟨piece, hmem, htree⟩ := hpiece hchild
      rw [← htree]
      exact (hpieces piece hmem).sound
    · intro first hmem
      have hsame := congrArg List.head? howns
      rw [List.head?_map, List.head?_map, Option.mem_def.1 hmem] at hsame
      obtain ⟨piece, hhead, hown⟩ := Option.map_eq_some_iff.1 hsame.symm
      rw [← hown]
      refine Stack.isOwn_head?_of_pop hpop hcount (fun hzero => ?_) piece hhead
      rw [hzero, Stack.pop.eq_def] at hpop
      cases hpop
      cases hhead
    · obtain ⟨piece, hmem, htree⟩ := hpiece hchild
      rw [← htree]
      exact (hpieces piece hmem).neat
  · cases h

/-- A completion has the text of the stack that it was made on. -/
theorem source_complete {q : Production} {s : Stack} {c : Completion} (h : complete q s = some c) :
    c.source = Stack.source s := by
  have hextras := Stack.source_popExtras s []
  unfold complete at h
  dsimp only at h
  split at h
  · next pieces below hpop =>
    obtain ⟨children, hlabelled, rfl⟩ := Option.map_eq_some_iff.1 h
    have hpieces := Stack.source_pop hpop
    rw [sourceOf_nil, List.append_nil] at hextras hpieces
    rw [Completion.source, source_ofChildren, sourceOf_congr (map_of_labelled hlabelled).1, ← hpieces,
      hextras]
  · cases h

/-! ### Completions at one place -/

/-- Completions of one production that begin at the same place, on stacks that divide a text up to
where `rest` of it is left. -/
structure IsGroup (text rest : List Char) (cs : List Completion) : Prop where
  sound : ∀ c ∈ cs, c.IsSound
  read : ∀ c ∈ cs, c.source ++ rest = text
  alike : ∀ c ∈ cs, ∀ d ∈ cs,
    (Stack.top c.below).reach.bytes = (Stack.top d.below).reach.bytes

theorem isGroup_singleton {c : Completion} (hc : c.IsSound) (hread : c.source ++ rest = text) :
    IsGroup text rest [c] where
  sound := List.forall_mem_singleton.2 hc
  read := List.forall_mem_singleton.2 hread
  alike := by simp

theorem IsGroup.concat {c d : Completion} {cs : List Completion} (h : IsGroup text rest (c :: cs))
    (hd : IsGroup text rest [d]) (hplace : samePlace c d) : IsGroup text rest (c :: cs ++ [d]) where
  sound := List.forall_mem_append.2 ⟨h.sound, hd.sound⟩
  read := List.forall_mem_append.2 ⟨h.read, hd.read⟩
  alike := by
    simp only [samePlace, Bool.and_eq_true, beq_iff_eq] at hplace
    have hfirst : ∀ x ∈ c :: cs ++ [d],
        (Stack.top x.below).reach.bytes = (Stack.top c.below).reach.bytes := by
      refine List.forall_mem_append.2 ⟨fun x hx => h.alike x hx c List.mem_cons_self, ?_⟩
      exact List.forall_mem_singleton.2 hplace.1.1.symm
    exact fun x hx y hy => (hfirst x hx).trans (hfirst y hy).symm

theorem isGroup_add {d : Completion} {groups : List (List Completion)}
    (hd : IsGroup text rest [d]) (hgroups : ∀ g ∈ groups, IsGroup text rest g) :
    ∀ g ∈ group.add d groups, IsGroup text rest g := by
  induction groups with
  | nil => exact List.forall_mem_singleton.2 hd
  | cons g groups ih =>
      obtain ⟨hg, hrest⟩ := List.forall_mem_cons.1 hgroups
      rw [group.add.eq_def]
      dsimp only
      split
      · split
        · next hplace => exact List.forall_mem_cons.2 ⟨hg.concat hd hplace, hrest⟩
        · exact List.forall_mem_cons.2 ⟨hg, ih hrest⟩
      · exact ih hrest

theorem isGroup_of_mem {cs : List Completion} (hcs : ∀ c ∈ cs, IsGroup text rest [c]) :
    ∀ g ∈ group cs, IsGroup text rest g :=
  forall_mem_foldl (IsGroup text rest) (List.forall_mem_nil _)
    fun _ hgroups c hc => isGroup_add (hcs c hc) hgroups

theorem isGroup_complete {q : Production} (hq : q.IsRule) (hr : r.IsSound text)
    (hread : r.Leaves text rest) :
    ∀ g ∈ group (r.divisions.filterMap (complete q)), IsGroup text rest g := by
  refine isGroup_of_mem fun c hc => ?_
  obtain ⟨s, hs, hcomplete⟩ := List.mem_filterMap.1 hc
  refine isGroup_singleton (isSound_complete hq (hr.divisions s hs) hcomplete) ?_
  rw [source_complete hcomplete]
  exact hread s hs

/-- Any of the completions may stand on the stack below another. -/
theorem IsGroup.source_eq {c d : Completion} {cs : List Completion} (h : IsGroup text rest cs)
    (hc : c ∈ cs) (hd : d ∈ cs) :
    Stack.source c.below ++ d.tree.source ++ sourceOf d.extras ++ rest = text := by
  have hbelow : Stack.source c.below = Stack.source d.below := by
    have hreach := h.alike c hc d hd
    rw [Stack.bytes_top (h.sound c hc).below, Stack.bytes_top (h.sound d hd).below] at hreach
    have hall := (h.read c hc).trans (h.read d hd).symm
    simp only [Completion.source, List.append_assoc] at hall
    exact Extent.eq_of_append_eq_append hall hreach
  rw [hbelow]
  exact h.read d hd

theorem source_onto (c : Completion) (below : Stack) (state : ItemSet) :
    Stack.source (c.onto below state) =
      Stack.source below ++ c.tree.source ++ sourceOf c.extras := by
  rw [Completion.onto, Stack.source_foldl_push, Stack.source_push]

/-- The tree of one completion is put onto the stacks below all of them. -/
theorem exists_of_resume {cs : List Completion} {head : Construct} (h : resume r head cs = some a) :
    a.rest = r.rest ∧ a.status = .active ∧ a.landmarks = [] ∧ ∃ best ∈ cs, ∃ first ∈ cs,
      ∀ s ∈ a.divisions, ∃ c ∈ cs,
        s = best.onto c.below ((Stack.top first.below).state.advance (.construct head)) := by
  cases cs with
  | nil => cases h
  | cons c cs =>
      rw [resume] at h
      cases h
      refine ⟨rfl, rfl, rfl, cs.foldl (fun a b =>
        if resume.better a.tree b.tree == b.tree.summary then b else a) c, ?_, c,
        List.mem_cons_self, ?_⟩
      · apply List.foldlRecOn (motive := fun best => best ∈ c :: cs) _ _ List.mem_cons_self
        intro a ha b hb
        split
        · exact List.mem_cons_of_mem c hb
        · exact ha
      · refine forall_mem_foldl _ (List.forall_mem_nil _) ?_
        intro acc hacc d hd s hs
        obtain rfl | hs := Reading.mem_of_mem_addStack hs
        · exact ⟨d, hd, rfl⟩
        · exact hacc s hs

theorem isSound_resume {cs : List Completion} {head : Construct} (hcs : IsGroup text r.rest cs)
    (h : resume r head cs = some a) : a.IsSound text := by
  obtain ⟨hrest, hactive, hlandmarks, best, hbest, first, hfirst, hdivisions⟩ := exists_of_resume h
  have hstate := ItemSet.lawful_advance (Stack.lawful_top (hcs.sound first hfirst).below)
    (.construct head)
  have hsound := hcs.sound best hbest
  refine ⟨?_, ?_, Reading.not_paused hactive, by simp [hlandmarks]⟩
  · intro s hs
    obtain ⟨c, hc, rfl⟩ := hdivisions s hs
    have hpushed := Stack.isSound_push (hcs.sound c hc).below (hsound.tree.isPiece hsound.neat) hstate
    exact Stack.isSound_foldl_push hpushed hsound.extras hstate
  · intro s hs
    obtain ⟨c, hc, rfl⟩ := hdivisions s hs
    rw [hrest, source_onto]
    exact hcs.source_eq hc hbest

theorem isAt_resume {cs : List Completion} {head : Construct} (hcs : IsGroup text rest cs)
    (h : resume r head cs = some a) : a.IsAt text rest := by
  obtain ⟨-, hactive, -, best, hbest, first, -, hdivisions⟩ := exists_of_resume h
  refine ⟨hactive, fun s hs => ?_⟩
  obtain ⟨c, hc, rfl⟩ := hdivisions s hs
  rw [source_onto]
  exact hcs.source_eq hc hbest

/-! ### Completing productions on a reading -/

/-- What completing productions on reading `v` leads to, and with it the number of a reading that it came
to, if any. Readings are added after those that there were, and wherever reading `v` is, those that are
there stay there. -/
structure Reduces (text : List Char) (v : Nat) (p q : Parser) (last : Option Nat) : Prop where
  sound : q.IsSound text
  size : p.size ≤ q.size
  last : ∀ w ∈ last, p.size ≤ w
  kept : ∀ rest, (p.reading v).IsAt text rest →
    ∀ i, (p.reading i).IsAt text rest → (q.reading i).IsAt text rest

theorem reduces_refl (hp : p.IsSound text) : Reduces text v p p none :=
  ⟨hp, Nat.le_refl _, nofun, fun _ _ _ hi => hi⟩

theorem Reduces.trans {o : Parser} {last last' : Option Nat} (h : Reduces text v o p last)
    (h' : Reduces text v p q last') : Reduces text v o q last' where
  sound := h'.sound
  size := h.size.trans h'.size
  last w hw := h.size.trans (h'.last w hw)
  kept rest hv i hi := h'.kept rest (h.kept rest hv v hv) i (h.kept rest hv i hi)

theorem reading_of_size_le (h : p.size ≤ i) : p.reading i = default := by
  rw [reading, List.getD_eq_getElem?_getD, List.getElem?_eq_none h, Option.getD_none]

theorem size_append (p : Parser) (r : Reading) : (p.append r).size = p.size + 1 :=
  List.length_append.trans rfl

theorem size_remove_of_lt (h : w < p.size) : (p.remove w).size + 1 = p.size := by
  have hlength := List.length_eraseIdx_add_one h
  exact hlength

theorem le_size_remove (hn : n ≤ w) (hsize : n ≤ p.size) : n ≤ (p.remove w).size := by
  by_cases hw : w < p.size
  · have := size_remove_of_lt hw
    omega
  · rwa [remove, List.eraseIdx_of_length_le (Nat.le_of_not_lt hw)]

theorem size_set (p : Parser) (v : Nat) (r : Reading) : (p.set v r).size = p.size :=
  List.length_set

theorem size_merge? (h : p.merge? v w = some q) (hw : w < p.size) : q.size + 1 = p.size := by
  obtain ⟨-, rfl⟩ := eq_of_merge? h
  rw [size_remove_of_lt (by rwa [size_set]), size_set]

section Append

variable {o : Parser} (h : Reduces text v o p none) (hr : r.IsSound text)
  (hat : ∀ rest, (o.reading v).IsAt text rest → r.IsAt text rest)

include h hr hat

theorem Reduces.append : Reduces text v o (p.append r) none := by
  refine ⟨isSound_append h.sound hr, h.size.trans ?_, nofun, ?_⟩
  · rw [size_append]
    exact Nat.le_succ _
  · exact fun rest hv i hi => isAt_append (hat rest hv) (h.kept rest hv i hi)

/-- A new reading comes last, and may be joined to one that stands at the same place. -/
theorem Reduces.join {j : Nat} (hjoined : (p.append r).merge? j p.size = some q) :
    Reduces text v o q none := by
  have happended := h.append hr hat
  have hbeyond {k : Nat} (hk : p.size ≤ k) (rest : List Char) : (p.reading k).IsAt text rest := by
    rw [reading_of_size_le hk]
    exact Reading.isAt_default
  have hsize := size_append p r
  have hlast := size_merge? hjoined (by omega)
  refine ⟨isSound_merge? happended.sound hjoined, h.size.trans (by omega), nofun, ?_⟩
  intro rest hv i hi
  have hnew {k : Nat} (hk : p.size ≤ k) : ((p.append r).reading k).IsAt text rest :=
    isAt_append (hat rest hv) (hbeyond hk rest)
  exact isAt_merge? hjoined (hnew (Nat.le_refl _)) (happended.kept rest hv i hi)
    fun hle => hnew (Nat.le_succ_of_le hle)

end Append

theorem reduces_reduce (hp : p.IsSound text) (v : Nat) {q : Production} (hq : q.IsRule) :
    Reduces text v p (reduce p v q).1 (reduce p v q).2 := by
  have hr := isSound_reading hp v
  have hfold : Reduces text v p (reduce p v q).1 none := by
    unfold reduce
    dsimp only
    apply List.foldlRecOn (motive := fun acc => Reduces text v p acc none) _ _ (reduces_refl hp)
    intro acc hacc cs hcs
    split
    · next new hnew =>
      have hsound := isSound_resume (isGroup_complete hq hr hr.read cs hcs) hnew
      have hat (rest : List Char) (hv : (p.reading v).IsAt text rest) : new.IsAt text rest :=
        isAt_resume (isGroup_complete hq hr hv.read cs hcs) hnew
      split
      · exact hacc
      · split
        · next joined hjoined =>
          obtain ⟨j, -, hj⟩ := List.exists_of_findSome?_eq_some hjoined
          split at hj
          · cases hj
          · exact hacc.join hsound hat hj
        · exact hacc.append hsound hat
    · exact hacc
  refine ⟨hfold.sound, hfold.size, ?_, hfold.kept⟩
  intro w hw
  unfold reduce at hw
  dsimp only at hw
  split at hw
  · cases hw
    exact Nat.le_refl _
  · cases hw

/-- Productions are completed one by one, and one of the readings that they led to is told. -/
theorem reduces_foldl (hp : p.IsSound text) (v : Nat) {qs : List Production}
    (hqs : ∀ q ∈ qs, q.IsRule) (choose : Option Nat → Option Nat → Option Nat)
    (hchoose : ∀ new last, choose new last = new ∨ choose new last = last) :
    let found := qs.foldl (fun (acc : Parser × Option Nat) q =>
      ((reduce acc.1 v q).1, choose (reduce acc.1 v q).2 acc.2)) (p, none)
    Reduces text v p found.1 found.2 := by
  apply List.foldlRecOn (motive := fun acc : Parser × Option Nat => Reduces text v p acc.1 acc.2) _ _
    (reduces_refl hp)
  intro acc hacc q hq
  have hstep := hacc.trans (reduces_reduce hacc.sound v (hqs q hq))
  refine ⟨hstep.sound, hstep.size, ?_, hstep.kept⟩
  obtain hnew | hlast := hchoose (reduce acc.1 v q).2 acc.2
  · rw [hnew]
    exact hstep.last
  · rw [hlast]
    exact hacc.last

theorem reduces_reduceAll (hp : p.IsSound text) (v : Nat) {qs : List Production}
    (hqs : ∀ q ∈ qs, q.IsRule) : Reduces text v p (reduceAll p v qs).1 (reduceAll p v qs).2 :=
  reduces_foldl hp v hqs (fun new _ => new) fun _ _ => .inl rfl

theorem isRule_of_mem_due {state : ItemSet} (hstate : state.Lawful) (terminals : List Terminal) :
    ∀ q ∈ due (terminals.map state.moves), q.IsRule := by
  refine forall_mem_foldl Production.IsRule (List.forall_mem_nil _) ?_
  intro acc hacc m hm
  obtain ⟨t, -, rfl⟩ := List.mem_map.1 hm
  refine forall_mem_foldl Production.IsRule hacc ?_
  intro acc hacc q hq
  split
  · exact hacc
  · have hrule := ItemSet.isRule_of_mem_reductions hstate hq
    exact List.forall_mem_append.2 ⟨hacc, List.forall_mem_singleton.2 hrule⟩

/-- Completing what is due on a reading, whatever terminals are reckoned with. -/
theorem reduces_due (hp : p.IsSound text) (v : Nat) (terminals : List Terminal) :
    let found := reduceAll p v (due (terminals.map (p.reading v).state.moves))
    Reduces text v p found.1 found.2 :=
  reduces_reduceAll hp v
    (isRule_of_mem_due (Reading.lawful_state (isSound_reading hp v)) terminals)

/-! ### Completing everything stays at one place -/

/-- Whether reading `u` and all from `n` on are at one place in the text. -/
structure AreAt (text rest : List Char) (u n : Nat) (p : Parser) : Prop where
  sound : p.IsSound text
  size : n ≤ p.size
  readings : ∀ i, i = u ∨ n ≤ i → (p.reading i).IsAt text rest

theorem Reduces.areAt {last : Option Nat} (h : Reduces text v p q last) (hp : AreAt text rest u n p)
    (hv : v = u ∨ n ≤ v) : AreAt text rest u n q :=
  ⟨h.sound, hp.size.trans h.size, fun i hi => h.kept rest (hp.readings v hv) i (hp.readings i hi)⟩

theorem AreAt.remove (hp : AreAt text rest u n p) (hw : n ≤ w) : AreAt text rest u n (p.remove w) :=
  ⟨isSound_remove hp.sound w, le_size_remove hw hp.size, fun i hi =>
    isAt_remove (fun _ => hp.readings i hi) fun hle =>
      hp.readings (i + 1) (.inr (hw.trans (Nat.le_succ_of_le hle)))⟩

theorem AreAt.replace (hp : AreAt text rest u n p) (hw : n ≤ w) (v : Nat) :
    AreAt text rest u n (p.replace v w) := by
  have hset : AreAt text rest u n (p.set v (p.reading w)) :=
    ⟨isSound_set hp.sound (isSound_reading hp.sound w) v, by rw [size_set]; exact hp.size,
      fun i hi => isAt_set (hp.readings w (.inr hw)) (hp.readings i hi)⟩
  exact hset.remove hw

theorem AreAt.merge? (hp : AreAt text rest u n p) (h : p.merge? v w = some q) (hw : n ≤ w) :
    AreAt text rest u n q := by
  refine ⟨isSound_merge? hp.sound h, ?_, fun i hi => ?_⟩
  · obtain ⟨-, rfl⟩ := eq_of_merge? h
    exact le_size_remove hw (by rw [size_set]; exact hp.size)
  · exact isAt_merge? h (hp.readings w (.inr hw)) (hp.readings i hi) fun hle =>
      hp.readings (i + 1) (.inr (hw.trans (Nat.le_succ_of_le hle)))

/-- The readings that come up when everything is completed stay where the first one is. A reading before
them is not dropped. -/
theorem areAt_completeAll (hp : AreAt text rest u n p) {start base : Nat}
    {ahead : Option Terminal} (hstart : start = u ∧ ahead = none ∨ n ≤ start) (hbase : n ≤ base)
    (hv : v = start ∨ n ≤ v) (fuel step : Nat) (canShift : Bool) :
    AreAt text rest u n (completeAll fuel p start v base step ahead canShift).1 := by
  induction fuel generalizing p v step canShift with
  | zero => exact hp
  | succ fuel ih =>
      have htracked : v = u ∨ n ≤ v := by omega
      have hreduced (terminals : List Terminal) : AreAt text rest u n
          (reduceAll p v (due (terminals.map (p.reading v).state.moves))).1 :=
        (reduces_due hp.sound v terminals).areAt hp htracked
      have hforward : n ≤ if v = start then p.size else v + 1 := by
        have := hp.size
        split <;> omega
      have hdropped (hahead : ahead.isSome) : n ≤ v := by
        obtain ⟨-, rfl⟩ | hstart := hstart
        · cases hahead
        · omega
      rw [completeAll.eq_def]
      dsimp only
      split
      · exact hp
      next hlt =>
      split
      · next joined hjoined =>
        obtain ⟨j, hj, hmerge⟩ := List.exists_of_findSome?_eq_some hjoined
        simp only [List.mem_filter, List.mem_range, decide_eq_true_eq] at hj
        exact ih (hp.merge? hmerge (by omega)) hv _ _
      split
      · exact ih (hreduced _) (.inr hforward) _ _
      split
      · next w hw =>
        have hnew := (reduces_due hp.sound v _).last w hw
        split
        · exact ih ((hreduced _).replace (hp.size.trans hnew) v) hv _ _
        split
        · next hahead => exact ih ((hreduced _).remove (hdropped hahead)) (.inr hforward) _ _
        · exact ih (hreduced _) (.inr hforward) _ _
      · split
        · next hahead => exact ih ((hreduced _).remove (hdropped hahead)) (.inr hforward) _ _
        · exact ih (hreduced _) (.inr hforward) _ _

end Parser

end EndpointAtlas.Syntax
