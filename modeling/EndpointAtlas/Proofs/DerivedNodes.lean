import EndpointAtlas.Proofs.FirmNodes
import EndpointAtlas.Proofs.SoundRounds

/-!
# Nodes that the grammar derives

Below the root of a tree without repairs each node is a token or is filled as a rule says. So whatever
stands as a name or a type in such a node has a firm end.
-/

namespace EndpointAtlas.Syntax

open Grammar Text Tree

namespace Node

variable {n m : Node} {t : Tree} {label : Label} {c : Construct} {u : Terminal} {r : Role}

/-- A token, or a construct as a tree of the grammar shows it. -/
inductive IsDerived : Node → Prop
  | leaf {kind : Kind} {role : Option Role} {gap text : List Char} {missing : Bool} :
      IsDerived (leaf kind role gap text missing)
  | branch {c : Construct} {role : Option Role} {broken : Bool} {summary : Summary}
      {children : List (Label × Tree)} :
      c.hidden = false → (Tree.node c summary children).IsDerived →
      (Tree.node c summary children).Neat →
      IsDerived (branch (.construct c) role broken (ofTrees children))

theorem IsDerived.giveRole (h : n.IsDerived) (r : Option Role) : (giveRole r n).IsDerived := by
  cases h with
  | leaf =>
      unfold Node.giveRole
      split
      · split <;> exact .leaf
      · next heq => cases heq
      · exact .leaf
  | branch hshown htree hneat =>
      unfold Node.giveRole
      split
      · next heq => cases heq
      · next heq =>
        cases heq
        exact .branch hshown htree hneat
      · exact .branch hshown htree hneat

theorem isBroken_giveRole (r : Option Role) (n : Node) : (giveRole r n).isBroken = n.isBroken := by
  unfold giveRole
  split
  · split <;> rfl
  · rfl
  · rfl

/-- A node of a sound tree is derived if there is no repair in the tree or none in the node. -/
theorem isDerived_of_mem (h : Sound t) (hneat : Neat t) (hn : n ∈ ofTree label t)
    (hclean : t.hasRepair = false ∨ n.isBroken = false) : n.IsDerived := by
  induction h generalizing label n with
  | token | missing | stray =>
      rw [ofTree, List.mem_singleton] at hn
      rw [hn]
      exact .leaf
  | @node kind summary steps children hsummary hallows hfills hlast hchildren ih =>
      rw [ofTree] at hn
      split at hn
      · obtain ⟨m, hm, rfl⟩ := List.mem_map.1 hn
        obtain ⟨child, hchild, hm⟩ := mem_ofTrees_iff.1 hm
        rw [isBroken_giveRole] at hclean
        refine (ih child hchild (hneat.of_mem hchild) hm
          (hclean.imp_left fun hclean => ?_)).giveRole _
        exact hasRepair_of_mem hsummary.repaired hclean child hchild
      · next hshown =>
        rw [List.mem_singleton] at hn
        subst hn
        have hsound := Sound.node hsummary hallows hfills hlast hchildren
        exact .branch (Bool.eq_false_iff.2 hshown) ⟨hsound, hclean.elim id id⟩ hneat
  | @skipped isOpen summary children hsummary _ _ ih =>
      have hrepaired : summary.repaired = true := hsummary.repaired
      have hbroken : n.isBroken = false := by
        refine hclean.resolve_left ?_
        rw [hasRepair, Tree.summary, hrepaired]
        exact Bool.noConfusion
      rw [ofTree] at hn
      split at hn
      · obtain ⟨m, hm, rfl⟩ := List.mem_map.1 hn
        obtain ⟨child, hchild, hm⟩ := mem_ofTrees_iff.1 hm
        rw [isBroken_giveRole] at hbroken
        cases hneat with
        | skipped hneat => exact (ih child hchild (hneat child hchild) hm (.inr hbroken)).giveRole _
      · rw [List.mem_singleton] at hn
        subst hn
        rw [isBroken, hrepaired] at hbroken
        cases hbroken

/-- A child of a derived node is a comment or stands for a step of a rule. -/
theorem IsDerived.cases_of_mem (h : n.IsDerived) (hm : m ∈ n.children) : m.IsNote ∨
    ∃ c steps step t, n.kind = .construct c ∧ c.Allows steps ∧ step ∈ steps ∧ t.IsDerived ∧
      t.Neat ∧ t.symbol? = some step.symbol ∧
      m ∈ ofTree { role := step.role, shown := step.shown } t := by
  cases h with
  | leaf => cases hm
  | @branch c role broken summary children _ htree hneat =>
      obtain ⟨steps, hallows, hfills, -, hchildren⟩ := htree.exists_steps
      obtain ⟨child, hchild, hm⟩ := mem_ofTrees_iff.1 hm
      have hderived := hchildren child hchild
      obtain ⟨hextra, hloose⟩ | ⟨step, hstep, hsymbol, hplace⟩ := hfills.cases_of_mem hchild
      · exact .inl (hloose.isNote hextra hderived m hm)
      · rw [hplace] at hm
        exact .inr ⟨c, steps, step, child.2, rfl, hallows, hstep, hderived, hneat.of_mem hchild,
          hsymbol, hm⟩

/-- A node that a tree of the grammar shows as where it stands. -/
def IsPart (n : Node) : Prop :=
  ∃ label t, IsPlaced label t ∧ t.IsDerived ∧ t.Neat ∧ n ∈ ofTree label t

theorem IsPart.isDerived (h : n.IsPart) : n.IsDerived := by
  obtain ⟨label, t, -, ht, hneat, hn⟩ := h
  exact isDerived_of_mem ht.sound hneat hn (.inl ht.clean)

theorem IsDerived.isPart (h : n.IsDerived) (hm : m ∈ n.children) : m.IsPart := by
  cases h with
  | leaf => cases hm
  | branch _ htree hneat =>
      obtain ⟨steps, hallows, hfills, -, hchildren⟩ := htree.exists_steps
      obtain ⟨child, hchild, hm⟩ := mem_ofTrees_iff.1 hm
      exact ⟨_, _, hfills.isPlaced hallows child hchild, hchildren child hchild, hneat.of_mem hchild, hm⟩

theorem IsDerived.children (h : n.IsDerived) : ∀ m ∈ n.children, m.IsDerived :=
  fun _ hm => (h.isPart hm).isDerived

/-- A child that plays a role stands for a step that has the role. -/
theorem IsDerived.exists_step (h : n.IsDerived) (hm : m ∈ n.children) (hrole : m.role = some r) :
    ∃ (c : Construct) (steps : List Step) (step : Step) (t : Tree), c.Allows steps ∧ step ∈ steps ∧
      step.role = some r ∧ t.IsDerived ∧ t.Neat ∧ t.symbol? = some step.symbol ∧
      m ∈ ofTree { role := step.role, shown := step.shown } t := by
  obtain hnote | ⟨c, steps, step, t, -, hallows, hstep, ht, hneat, hsymbol, hmem⟩ := h.cases_of_mem hm
  · rw [hnote.role] at hrole
    cases hrole
  · obtain hown | hbelow := role_or_exists_step ht hneat hmem hrole
    · exact ⟨c, steps, step, t, hallows, hstep, hown, ht, hneat, hsymbol, hmem⟩
    · exact hbelow

/-- What stands as a name or a type in a derived node has a firm end. -/
theorem IsDerived.endsFirm (h : n.IsDerived) (hm : m ∈ n.children) (hrole : m.role = some r)
    (hr : r.isFirm) : EndsFirm m.text := by
  obtain ⟨c, steps, step, t, hallows, hstep, hown, ht, -, hsymbol, hmem⟩ := h.exists_step hm hrole
  exact endsFirm_of_isFirm ht ⟨_, hsymbol, hallows.isFirm_of_role hstep hown hr⟩ hmem hrole

/-! ### Trees that show as one node -/

theorem eq_token (ht : t.IsDerived) (hsymbol : t.symbol? = some (.terminal u)) :
    ∃ gap text, u.Spells text ∧ t = .token u gap text := by
  obtain ⟨hsound, hclean⟩ := ht
  cases hsound with
  | token hspells =>
      cases hsymbol
      exact ⟨_, _, hspells, rfl⟩
  | missing _ => cases hclean
  | stray _ _ => cases hsymbol
  | node => cases hsymbol
  | skipped => cases hsymbol

theorem ofTree_of_shown (hsymbol : t.symbol? = some (.construct c)) (hshown : c.hidden = false)
    (label : Label) : ∃ broken ns, ofTree label t = [.branch (.construct c) label.role broken ns] := by
  cases t with
  | node kind summary children =>
      cases hsymbol
      exact ⟨_, _, by rw [ofTree, hshown, if_neg Bool.false_ne_true]⟩
  | token _ _ _ => cases hsymbol
  | missing _ => cases hsymbol
  | stray _ _ => cases hsymbol
  | skipped _ _ _ => cases hsymbol

/-- The name of a class or an interface is an identifier. -/
theorem IsDerived.identifier_name (h : n.IsDerived)
    (hkind : n.kind = .construct .classDeclaration ∨ n.kind = .construct .interfaceDeclaration)
    (hm : m ∈ n.children) (hrole : m.role = some .name) : ∀ c ∈ m.text, isIdentifierPart c := by
  obtain hnote | ⟨c, steps, step, t, hc, hallows, hstep, ht, -, hsymbol, hmem⟩ := h.cases_of_mem hm
  · rw [hnote.role] at hrole
    cases hrole
  have hdeclares : c = .classDeclaration ∨ c = .interfaceDeclaration := by
    rwa [hc, Kind.construct.injEq, Kind.construct.injEq] at hkind
  obtain ⟨hshown, hname⟩ := hallows.identifier_of_name hdeclares hstep
  have hgiven : m.role = step.role := by
    cases hx : step.symbol with
    | terminal u =>
        rw [hx] at hsymbol
        obtain ⟨gap, text, -, rfl⟩ := eq_token ht hsymbol
        rw [ofTree, List.mem_singleton] at hmem
        rw [hmem]
        rfl
    | construct d =>
        rw [hx] at hsymbol hshown
        obtain ⟨broken, ns, hsingle⟩ := ofTree_of_shown hsymbol (by simpa [Symbol.isShown] using hshown)
          { role := step.role, shown := step.shown }
        rw [hsingle, List.mem_singleton] at hmem
        rw [hmem]
        rfl
  rw [hname (hgiven ▸ hrole)] at hsymbol
  obtain ⟨gap, text, hspells, rfl⟩ := eq_token ht hsymbol
  rw [ofTree, List.mem_singleton] at hmem
  rw [hmem, text_leaf]
  exact (hspells.identifier rfl).2

/-- What stands in a spread parameter beside its modifiers and its name is no blank. -/
theorem IsDerived.exists_mem_spread (h : n.IsDerived) (hkind : n.kind = .construct .spreadParameter)
    (hm : m ∈ n.children) (hmodifiers : m.kind ≠ .construct .modifiers)
    (hdeclarator : m.kind ≠ .construct .variableDeclarator) : ∃ c ∈ m.text, isWhitespace c = false := by
  obtain hnote | ⟨c, steps, step, t, hc, hallows, hstep, ht, -, hsymbol, hmem⟩ := h.cases_of_mem hm
  · exact hnote.exists_mem
  have hspread : c = .spreadParameter := by rwa [hc, Kind.construct.injEq] at hkind
  rw [hspread] at hallows
  have hsingle {d : Construct} (hd : step.symbol = .construct d) (hshown : d.hidden = false) :
      m.kind = .construct d := by
    rw [hd] at hsymbol
    obtain ⟨broken, ns, hsingle⟩ := ofTree_of_shown hsymbol hshown
      { role := step.role, shown := step.shown }
    rw [hsingle, List.mem_singleton] at hmem
    rw [hmem]
    rfl
  obtain hfirm | hd | hd := hallows.isFirm_of_spread hstep
  · obtain hnote | hend := isNote_or_endsFirm ht ⟨_, hsymbol, hfirm⟩ hmem
    · exact hnote.exists_mem
    · exact hend.exists_mem
  · exact absurd (hsingle hd rfl) hmodifiers
  · exact absurd (hsingle hd rfl) hdeclarator

/-! ### The root -/

theorem giveRole_none (n : Node) : Node.giveRole none n = n := by
  unfold Node.giveRole
  split
  · split <;> rfl
  · rfl
  · rfl

/-- Below the root of a tree without repairs stands what the grammar derives. -/
theorem isPart_of_isWhole (h : t.IsWhole) (hroot : (ofRoot t).isBroken = false) :
    ∀ n ∈ (ofRoot t).children, n.IsPart := by
  cases h with
  | skipped hrepaired =>
      rw [ofRoot, ofTree, if_neg Bool.false_ne_true] at hroot
      exact absurd hrepaired (Bool.eq_false_iff.1 hroot)
  | @node kind summary children hsummary htop =>
      have hbelow (hclean : summary.repaired = false) : ∀ n ∈ ofTrees children, n.IsPart := by
        intro n hn
        obtain ⟨child, hchild, hn⟩ := mem_ofTrees_iff.1 hn
        have hwhole := hasRepair_of_mem hsummary hclean child hchild
        have hchildTop := htop child hchild
        exact ⟨_, _, hchildTop.placed, ⟨hchildTop.sound, hwhole⟩, hchildTop.neat, hn⟩
      cases hhidden : kind.hidden with
      | false =>
          have hnode : ofRoot (.node kind summary children) =
              branch (.construct kind) none summary.repaired (ofTrees children) := by
            rw [ofRoot, ofTree, hhidden, if_neg Bool.false_ne_true]
          rw [hnode] at hroot ⊢
          exact hbelow hroot
      | true =>
          have hnodes : ofTree {} (.node kind summary children) = ofTrees children := by
            rw [ofTree, hhidden, if_pos rfl, funext giveRole_none, List.map_id']
          rw [ofRoot, hnodes] at hroot ⊢
          split at hroot
          · next n hsingle =>
            have hmem : n ∈ ofTrees children := by
              rw [hsingle]
              exact List.mem_cons_self
            obtain ⟨child, hchild, hmem⟩ := mem_ofTrees_iff.1 hmem
            have hderived :=
              isDerived_of_mem (htop child hchild).sound (htop child hchild).neat hmem (.inr hroot)
            exact fun m hm => hderived.isPart hm
          · exact hbelow hroot

theorem isDerived_of_isWhole (h : t.IsWhole) (hroot : (ofRoot t).isBroken = false) :
    ∀ n ∈ (ofRoot t).children, n.IsDerived :=
  fun n hn => (isPart_of_isWhole h hroot n hn).isDerived

end Node

end EndpointAtlas.Syntax
