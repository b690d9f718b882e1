import EndpointAtlas.Syntax.ItemSet
import Mathlib.Data.List.Induction

/-!
# The productions of a standpoint are those of the grammar

Every standpoint that a reading comes to holds productions that spell out forms of the grammar, so what
is completed there is completed by a rule.
-/

namespace EndpointAtlas

/-- What holds of all entries to begin with and of all that a step adds holds of all entries after a
fold. -/
theorem forall_mem_foldl {α β : Type} (P : α → Prop) {step : List α → β → List α} {acc : List α}
    {bs : List β} (hacc : ∀ a ∈ acc, P a)
    (hstep : ∀ acc, (∀ a ∈ acc, P a) → ∀ b ∈ bs, ∀ a ∈ step acc b, P a) :
    ∀ a ∈ bs.foldl step acc, P a :=
  List.foldlRecOn (motive := fun acc => ∀ a ∈ acc, P a) _ _ hacc hstep

namespace Grammar

variable {c : Construct} {ps : List Part} {p : Part} {steps : List Step} {step : Step}
  {q : Production}

/-! ### The sequences of a form -/

/-- Whether a form of the construct allows the steps in their order. -/
def Construct.Allows (c : Construct) (steps : List Step) : Prop :=
  ∃ f ∈ forms c, steps ∈ Form.sequences f.parts

instance (c : Construct) (steps : List Step) : Decidable (c.Allows steps) :=
  inferInstanceAs (Decidable (∃ f ∈ forms c, steps ∈ Form.sequences f.parts))

/-- Whether a production spells out a form of its construct. -/
def Production.IsRule (q : Production) : Prop := q.head.Allows q.steps

theorem Form.mem_sequences_cons_iff : steps ∈ Form.sequences (p :: ps) ↔
    ∃ here ∈ p.spellings, ∃ rest ∈ Form.sequences ps, steps = here ++ rest := by
  rw [Form.sequences, List.mem_flatMap]
  simp only [List.mem_map, eq_comm]

theorem Part.mem_choices_of_mem_spellings {here : List Step} (hhere : here ∈ p.spellings)
    (hstep : step ∈ here) : step ∈ p.choices := by
  have hchosen (h : here ∈ p.choices.map ([·])) : step ∈ p.choices := by
    obtain ⟨s, hs, rfl⟩ := List.mem_map.1 h
    rw [List.mem_singleton] at hstep
    rwa [hstep]
  rw [Part.spellings] at hhere
  split at hhere
  · exact hchosen hhere
  · rw [List.mem_cons] at hhere
    obtain rfl | hhere := hhere
    · cases hstep
    · exact hchosen hhere

/-- Every step is a choice of some part. -/
theorem Form.exists_part_of_mem (hsteps : steps ∈ Form.sequences ps) (hstep : step ∈ steps) :
    ∃ p ∈ ps, step ∈ p.choices := by
  induction ps generalizing steps with
  | nil =>
      rw [Form.sequences, List.mem_singleton] at hsteps
      rw [hsteps] at hstep
      cases hstep
  | cons p ps ih =>
      obtain ⟨here, hhere, rest, hrest, rfl⟩ := Form.mem_sequences_cons_iff.1 hsteps
      rw [List.mem_append] at hstep
      obtain hstep | hstep := hstep
      · exact ⟨p, List.mem_cons_self, Part.mem_choices_of_mem_spellings hhere hstep⟩
      · obtain ⟨p', hp', hchoice⟩ := ih hrest hstep
        exact ⟨p', List.mem_cons_of_mem _ hp', hchoice⟩

/-- Where the last part is required, the last step is a choice of it. -/
theorem Form.exists_concat_of_getLast? (hsteps : steps ∈ Form.sequences ps)
    (hlast : ps.getLast? = some p) (hrequired : p.required) :
    ∃ init, ∃ step ∈ p.choices, steps = init ++ [step] := by
  induction ps generalizing steps with
  | nil => cases hlast
  | cons p' ps ih =>
      obtain ⟨here, hhere, rest, hrest, rfl⟩ := Form.mem_sequences_cons_iff.1 hsteps
      cases ps with
      | nil =>
          rw [List.getLast?_singleton, Option.some.injEq] at hlast
          subst hlast
          rw [Form.sequences, List.mem_singleton] at hrest
          rw [Part.spellings, if_pos hrequired] at hhere
          obtain ⟨step, hstep, rfl⟩ := List.mem_map.1 hhere
          exact ⟨[], step, hstep, by rw [hrest]; rfl⟩
      | cons p'' ps =>
          rw [List.getLast?_cons_cons] at hlast
          obtain ⟨init, step, hstep, rfl⟩ := ih hrest hlast
          exact ⟨here ++ init, step, hstep, (List.append_assoc _ _ _).symm⟩

/-- Every step of a rule is a choice of some part of a form. -/
theorem Construct.Allows.exists_choice (h : c.Allows steps) (hstep : step ∈ steps) :
    ∃ f ∈ forms c, ∃ p ∈ f.parts, step ∈ p.choices := by
  obtain ⟨f, hf, hsteps⟩ := h
  exact ⟨f, hf, Form.exists_part_of_mem hsteps hstep⟩

/-! ### The tables of productions -/

theorem isRule_of_mem_spell (hq : q ∈ spell c) : q.IsRule := by
  rw [spell, List.mem_map] at hq
  obtain ⟨⟨⟨f, steps⟩, i⟩, hmem, rfl⟩ := hq
  obtain ⟨f', hf, hfound⟩ := List.mem_flatMap.1 (List.fst_mem_of_mem_zipIdx hmem)
  obtain ⟨steps', hsteps, heq⟩ := List.mem_map.1 hfound
  cases heq
  exact ⟨f, hf, hsteps⟩

/-- An entry of a table is in the list that the table was made from, or there is none. -/
theorem mem_of_mem_getD {α : Type} {table : List (List α)} {i : Nat} {x : α}
    (hx : x ∈ table.toArray.getD i []) : ∃ entry ∈ table, x ∈ entry := by
  rw [Array.getD_eq_getD_getElem?, List.getElem?_toArray] at hx
  cases hentry : table[i]? with
  | none =>
      rw [hentry] at hx
      cases hx
  | some entry =>
      rw [hentry] at hx
      exact ⟨entry, List.mem_of_getElem? hentry, hx⟩

theorem isRule_of_mem_productionsOf (hq : q ∈ productionsOf c) : q.IsRule := by
  rw [productionsOf, productionTable] at hq
  obtain ⟨entry, hentry, hmem⟩ := mem_of_mem_getD hq
  obtain ⟨c', -, rfl⟩ := List.mem_map.1 hentry
  exact isRule_of_mem_spell hmem

theorem isRule_of_mem_startingTable {symbols : List Symbol} {i : Nat}
    (hq : q ∈ (startingTable symbols).getD i []) : q.IsRule := by
  rw [startingTable] at hq
  obtain ⟨entry, hentry, hmem⟩ := mem_of_mem_getD hq
  obtain ⟨x, -, rfl⟩ := List.mem_map.1 hentry
  obtain ⟨c, -, hc⟩ := List.mem_flatMap.1 (List.mem_filter.1 hmem).1
  exact isRule_of_mem_productionsOf hc

theorem isRule_of_mem_startingWith {x : Symbol} (hq : q ∈ startingWith x) : q.IsRule := by
  cases x with
  | terminal t =>
      rw [startingWith, terminalStarts] at hq
      exact isRule_of_mem_startingTable hq
  | construct c =>
      rw [startingWith, constructStarts] at hq
      exact isRule_of_mem_startingTable hq

end Grammar

namespace Syntax

open Grammar

namespace ItemSet

variable {s : ItemSet} {i j : Item} {is : List Item} {q : Production}

/-- Whether all productions of a standpoint are rules. -/
def Lawful (s : ItemSet) : Prop := ∀ i ∈ s.items, i.production.IsRule

theorem lawful_lost : lost.Lawful := List.forall_mem_nil _

theorem lawful_default : (default : ItemSet).Lawful := List.forall_mem_nil _

theorem lawful_start : start.Lawful := by
  intro i hi
  simp only [start, List.mem_map, List.mem_append] at hi
  obtain ⟨q, hq | hq, rfl⟩ := hi
  · exact isRule_of_mem_productionsOf hq
  · exact isRule_of_mem_productionsOf (List.mem_filter.1 hq).1

theorem isRule_of_mem_insertItem (hi : i.production.IsRule) (his : ∀ k ∈ is, k.production.IsRule)
    (hj : j ∈ insertItem i is) : j.production.IsRule := by
  induction is with
  | nil =>
      rw [insertItem, List.mem_singleton] at hj
      rwa [hj]
  | cons k is ih =>
      rw [List.forall_mem_cons] at his
      rw [insertItem] at hj
      split at hj
      · rw [List.mem_cons] at hj
        obtain rfl | hj := hj
        · exact his.1
        · exact his.2 j hj
      split at hj
      · rw [List.mem_cons, List.mem_cons] at hj
        obtain rfl | rfl | hj := hj
        · exact hi
        · exact his.1
        · exact his.2 j hj
      · rw [List.mem_cons] at hj
        obtain rfl | hj := hj
        · exact his.1
        · exact ih his.2 hj

theorem lawful_advance (hs : s.Lawful) (x : Symbol) : (s.advance x).Lawful := by
  unfold advance
  refine forall_mem_foldl (fun i : Item => i.production.IsRule)
    (forall_mem_foldl (fun i : Item => i.production.IsRule) (List.forall_mem_nil _) ?_) ?_
  · -- The productions that were there move on, and they keep their rules.
    intro acc hacc i hi
    split
    · split
      · exact fun _ => isRule_of_mem_insertItem (hs i hi) hacc
      · exact hacc
    · exact hacc
  · rintro acc hacc ⟨a, follow⟩ -
    refine forall_mem_foldl (fun i : Item => i.production.IsRule) hacc ?_
    intro acc hacc q hq
    split
    · exact fun _ => isRule_of_mem_insertItem (isRule_of_mem_startingWith hq) hacc
    · exact hacc

/-! ### What can be completed -/

theorem mem_of_mem_insertByLength {qs : List Production} {r : Production}
    (hr : r ∈ insertByLength q qs) : r = q ∨ r ∈ qs := by
  induction qs with
  | nil => exact Or.inl (List.mem_singleton.1 hr)
  | cons p qs ih =>
      rw [insertByLength] at hr
      split at hr
      · exact List.mem_cons.1 hr
      · rw [List.mem_cons] at hr
        obtain rfl | hr := hr
        · exact Or.inr List.mem_cons_self
        · exact (ih hr).imp_right (List.mem_cons_of_mem p)

theorem Pending.mem_of_mem_add {acc : Pending} {r : Production}
    (hr : r ∈ (acc.add q).reductions) : r = q ∨ r ∈ acc.reductions := by
  unfold Pending.add at hr
  dsimp only at hr
  split at hr
  · exact Or.inr hr
  · rw [List.mem_append, List.mem_singleton] at hr
    obtain hr | hr := hr
    · split at hr
      · cases hr
      · exact Or.inr hr
    · exact Or.inl hr

/-- What is completed before a terminal is completed by a rule. -/
theorem isRule_of_mem_reductions (hs : s.Lawful) {t : Terminal}
    (hq : q ∈ (s.moves t).reductions) : q.IsRule := by
  have hdone : ∀ q ∈ (s.items.filter fun i => i.isComplete && i.follow.contains t).foldl
      (fun acc i => insertByLength i.production acc) [], q.IsRule := by
    refine forall_mem_foldl Production.IsRule (List.forall_mem_nil _) ?_
    intro acc hacc i hi r hr
    obtain rfl | hr := mem_of_mem_insertByLength hr
    · exact hs i (List.mem_filter.1 hi).1
    · exact hacc r hr
  have hpending : ∀ q ∈ (((s.items.filter fun i => i.isComplete && i.follow.contains t).foldl
      (fun acc i => insertByLength i.production acc) []).foldl Pending.add {}).reductions,
      q.IsRule := by
    apply List.foldlRecOn (motive := fun acc : Pending => ∀ q ∈ acc.reductions, q.IsRule) _ _
      (List.forall_mem_nil _)
    intro acc hacc p hp r hr
    obtain rfl | hr := Pending.mem_of_mem_add hr
    · exact hdone r hp
    · exact hacc r hr
  -- The moves hold all pending productions or none.
  unfold moves at hq
  dsimp only at hq
  split at hq
  · exact hpending q hq
  split at hq
  · cases hq
  split at hq
  · cases hq
  split at hq
  · exact hpending q hq
  split at hq
  · exact hpending q hq
  split at hq
  · cases hq
  · exact hpending q hq

end ItemSet

end Syntax

end EndpointAtlas
