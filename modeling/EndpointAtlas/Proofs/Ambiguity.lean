import EndpointAtlas.Proofs.Dotted
import EndpointAtlas.Proofs.Statistics
import EndpointAtlas.Proofs.WellFormedUnits
import Mathlib.Data.Finset.Card

/-!
# Where simple and qualified names meet

A catalog keeps simple and qualified names in one map. As long as no simple name has a dot and every
qualified name is a simple name after nothing or after a package and a dot, a name with a dot in it is
nobody's simple name, and a name without one is the qualified name of nobody but those who have it as
their simple name. So a simple name that is not ambiguous means one interface whatever qualifier it
comes with, and a qualified name is not lost to the simple name of another interface.
-/

namespace EndpointAtlas

open Text

/-- The names of a list are not all the same if the list without repetitions has two. -/
theorem one_lt_length_dedup_iff {names : List String} :
    1 < names.dedup.length ↔ ∃ x ∈ names, ∃ y ∈ names, x ≠ y := by
  rw [← List.card_toFinset, Finset.one_lt_card]
  simp only [List.mem_toFinset]

/-- The qualified key of a reference has a dot before its name exactly if there is a qualifier. -/
theorem TypeReference.qualifiedKey_cases (r : TypeReference) :
    r.qualifiedKey = r.name ∨ ∃ q, r.qualifiedKey = q ++ "." ++ r.name := by
  rw [qualifiedKey]
  split
  · next q _ =>
    split
    · exact .inl rfl
    · exact .inr ⟨q, rfl⟩
  · exact .inl rfl

theorem TypeReference.qualifiedKey_of_qualifier {r : TypeReference} {q : String}
    (hqualifier : r.qualifier = some q) (hne : q ≠ "") : r.qualifiedKey = q ++ "." ++ r.name := by
  rw [qualifiedKey, hqualifier]
  exact if_neg (by simpa using hne)

namespace Registration

/-- Whether an interface is named as those of source files are: its simple name has no dot, and before
it stands nothing or a package with a dot. -/
structure IsPackaged (r : Registration) : Prop where
  simple : '.' ∉ r.type.name.toList
  lead : r.lead = "" ∨ ∃ package : String, r.lead = package ++ "."

variable {r : Registration} {q simple key name : String} {history : List Registration}
  {names : SortedSet}

/-! ### The parts of a qualified name -/

theorem IsPackaged.lastSegment_qualifiedName (h : r.IsPackaged) :
    lastSegment r.qualifiedName.toList = r.type.name.toList := by
  rw [qualifiedName]
  obtain hlead | ⟨package, hlead⟩ := h.lead
  · rw [hlead, String.empty_append, lastSegment_of_notMem h.simple]
  · rw [hlead, toList_qualified, lastSegment_append, lastSegment_of_notMem h.simple]

/-- The simple name is what the qualified name has after its last dot. -/
theorem IsPackaged.name_of_qualifiedName (h : r.IsPackaged) (hsimple : '.' ∉ simple.toList)
    (hqualified : r.qualifiedName = q ++ "." ++ simple) : r.type.name = simple := by
  have hsegment := h.lastSegment_qualifiedName
  rw [hqualified, toList_qualified, lastSegment_append, lastSegment_of_notMem hsimple] at hsegment
  exact String.toList_inj.1 hsegment.symm

/-- By a name without a dot an interface goes only if that is its simple name. -/
theorem IsPackaged.goesBy_simple (h : r.IsPackaged) (hsimple : '.' ∉ simple.toList) :
    r.goesBy simple = (r.type.name == simple) := by
  rw [goesBy, Bool.eq_iff_iff, Bool.or_eq_true, beq_iff_eq, beq_iff_eq, beq_iff_eq]
  constructor
  · rintro (hname | hqualified)
    · exact hname.symm
    · have hsegment := h.lastSegment_qualifiedName
      rw [← hqualified, lastSegment_of_notMem hsimple] at hsegment
      exact String.toList_inj.1 hsegment.symm
  · intro hname
    exact .inl hname.symm

/-- By a name with a dot an interface goes only if that is its qualified name. -/
theorem IsPackaged.goesBy_qualified (h : r.IsPackaged) :
    r.goesBy (q ++ "." ++ simple) = (r.qualifiedName == q ++ "." ++ simple) := by
  have hne : q ++ "." ++ simple ≠ r.type.name := by
    intro heq
    apply h.simple
    rw [← heq, toList_qualified]
    exact List.mem_append_right _ List.mem_cons_self
  rw [goesBy, beq_false_of_ne hne, Bool.false_or, Bool.beq_comm]

/-! ### The qualified names of a simple name -/

theorem mem_namesOf_iff (h : namesOf history simple = some names) :
    name ∈ names.toList ↔ ∃ r ∈ history, r.type.name = simple ∧ r.qualifiedName = name := by
  rw [namesOf] at h
  split at h
  · cases h
  · cases h
    rw [SortedSet.mem_ofList, List.mem_map]
    simp only [List.mem_filter, beq_iff_eq, and_assoc]

end Registration

open Registration

theorem packagePrefix_cases (package : Option String) :
    packagePrefix package = "" ∨ ∃ p : String, packagePrefix package = p ++ "." := by
  unfold packagePrefix
  split
  · next p =>
    split
    · exact .inl rfl
    · exact .inr ⟨p, rfl⟩
  · exact .inl rfl

/-- The interfaces of a well-formed source file are named as the catalog needs it. -/
theorem SourceUnit.WellFormed.isPackaged {u : SourceUnit} (h : u.WellFormed) :
    ∀ r ∈ u.registrations, r.IsPackaged := by
  intro r hr
  obtain ⟨t, ht, rfl⟩ := List.mem_map.1 hr
  exact ⟨(h.types t (List.mem_filter.1 ht).1).name_plain, packagePrefix_cases u.package⟩

namespace Catalog

variable {c : Catalog} {history : List Registration} {simple : String} {names : SortedSet}
  {r s : Registration} {reference : TypeReference}

/-! ### Ambiguous names -/

theorem Records.get?_ambiguous (hrecords : c.Records history) (simple : String) :
    c.ambiguous.get? simple = (namesOf history simple).filter (1 < ·.size) := by
  rw [ambiguous, SortedMap.get?_filter, hrecords.names]

/-- A simple name is ambiguous if two interfaces that have it differ in their qualified names. -/
theorem Records.contains_ambiguous_iff (hrecords : c.Records history) :
    c.ambiguous.contains simple ↔ ∃ r ∈ history, ∃ s ∈ history,
      r.type.name = simple ∧ s.type.name = simple ∧ r.qualifiedName ≠ s.qualifiedName := by
  rw [SortedMap.contains, hrecords.get?_ambiguous, Option.isSome_filter, length_dedup_namesOf,
    decide_eq_true_iff, one_lt_length_dedup_iff]
  simp only [List.mem_map, List.mem_filter, beq_iff_eq]
  constructor
  · rintro ⟨_, ⟨r, ⟨hr, hrname⟩, rfl⟩, _, ⟨s, ⟨hs, hsname⟩, rfl⟩, hne⟩
    exact ⟨r, hr, s, hs, hrname, hsname, hne⟩
  · rintro ⟨r, hr, s, hs, hrname, hsname, hne⟩
    exact ⟨_, ⟨r, ⟨hr, hrname⟩, rfl⟩, _, ⟨s, ⟨hs, hsname⟩, rfl⟩, hne⟩

theorem Records.mem_ambiguous_iff (hrecords : c.Records history)
    (h : c.ambiguous.get? simple = some names) (name : String) :
    name ∈ names.toList ↔ ∃ r ∈ history, r.type.name = simple ∧ r.qualifiedName = name := by
  rw [hrecords.get?_ambiguous, Option.filter_eq_some_iff] at h
  exact mem_namesOf_iff h.1

theorem Records.qualifiedName_eq (hrecords : c.Records history)
    (hclear : ¬ c.ambiguous.contains simple) (hr : r ∈ history) (hs : s ∈ history)
    (hrname : r.type.name = simple) (hsname : s.type.name = simple) :
    r.qualifiedName = s.qualifiedName := by
  by_contra hne
  exact hclear (hrecords.contains_ambiguous_iff.2 ⟨r, hr, s, hs, hrname, hsname, hne⟩)

/-! ### What references mean -/

/-- A simple name that is not ambiguous means the last interface that has it, with any qualifier. -/
theorem Records.resolve_of_clear (hrecords : c.Records history)
    (hpackaged : ∀ r ∈ history, r.IsPackaged) (hr : r ∈ history)
    (hclear : ¬ c.ambiguous.contains r.type.name) (hname : reference.name = r.type.name) :
    c.resolve reference = (history.findRev? (·.type.name == r.type.name)).map (·.type) := by
  have hsimple := (hpackaged r hr).simple
  have hbare : history.findRev? (·.goesBy r.type.name) =
      history.findRev? (·.type.name == r.type.name) :=
    findRev?_congr fun s hs => (hpackaged s hs).goesBy_simple hsimple
  rw [hrecords.resolve, hname, hbare]
  obtain hkey | ⟨q, hkey⟩ := reference.qualifiedKey_cases
  · rw [hkey, hname, hbare, Option.or_self]
  rw [hname] at hkey
  have hdotted : history.findRev? (·.goesBy reference.qualifiedKey) =
      history.findRev? (·.qualifiedName == reference.qualifiedKey) := by
    rw [hkey]
    exact findRev?_congr fun s hs => (hpackaged s hs).goesBy_qualified
  have hsame {s : Registration} (hs : s ∈ history)
      (hqualified : s.qualifiedName = reference.qualifiedKey) : s.type.name = r.type.name :=
    (hpackaged s hs).name_of_qualifiedName hsimple (hqualified.trans hkey)
  rw [hdotted]
  by_cases hmatch : r.qualifiedName = reference.qualifiedKey
  · -- The key is the qualified name of all interfaces with that simple name.
    have hall : history.findRev? (·.qualifiedName == reference.qualifiedKey) =
        history.findRev? (·.type.name == r.type.name) := by
      apply findRev?_congr
      intro s hs
      rw [Bool.eq_iff_iff, beq_iff_eq, beq_iff_eq]
      refine ⟨hsame hs, fun hsname => ?_⟩
      rw [← hmatch]
      exact hrecords.qualifiedName_eq hclear hs hr hsname rfl
    rw [hall, Option.or_self]
  · -- The key is nobody's qualified name.
    have hnone : history.findRev? (·.qualifiedName == reference.qualifiedKey) = none := by
      rw [findRev?_eq_none_iff]
      intro s hs hqualified
      rw [beq_iff_eq] at hqualified
      apply hmatch
      rw [← hqualified]
      exact hrecords.qualifiedName_eq hclear hr hs rfl (hsame hs hqualified)
    rw [hnone, Option.none_or]

/-- A reference with the qualified name of an interface means that interface, if no other one has the
same qualified name. -/
theorem Records.resolve_of_qualified (hrecords : c.Records history)
    (hpackaged : ∀ r ∈ history, r.IsPackaged)
    (hdistinct : (history.map (·.qualifiedName)).Nodup) (hr : r ∈ history) {q : String}
    (hqualifier : reference.qualifier = some q) (hne : q ≠ "")
    (hkey : reference.qualifiedKey = r.qualifiedName) : c.resolve reference = some r.type := by
  have hdotted := TypeReference.qualifiedKey_of_qualifier hqualifier hne
  have hsingle : history.Pairwise fun a b => ¬ ((a.qualifiedName == reference.qualifiedKey) ∧
      (b.qualifiedName == reference.qualifiedKey)) := by
    refine (List.pairwise_map.1 hdistinct).imp ?_
    rintro a b hab ⟨ha, hb⟩
    exact hab ((eq_of_beq ha).trans (eq_of_beq hb).symm)
  have hfound : history.findRev? (·.goesBy reference.qualifiedKey) = some r := by
    calc history.findRev? (·.goesBy reference.qualifiedKey)
        = history.findRev? (·.qualifiedName == reference.qualifiedKey) := by
          rw [hdotted]
          exact findRev?_congr fun s hs => (hpackaged s hs).goesBy_qualified
      _ = some r := (findRev?_eq_some_iff_mem hsingle).2 ⟨hr, beq_iff_eq.2 hkey.symm⟩
  rw [hrecords.resolve, hfound, Option.some_or, Option.map_some]

/-- The ambiguous names are the simple names with two qualified names, each listed with all of these,
and any other simple name means the last interface that has it, whatever qualifier comes before it. -/
theorem ambiguous_ofRequests (requests : List Request)
    (hpackaged : ∀ r ∈ requests.flatMap (·.registrations), r.IsPackaged) :
    let c := ofRequests requests
    let history := requests.flatMap (·.registrations)
    (∀ simple, c.ambiguous.contains simple ↔ ∃ r ∈ history, ∃ s ∈ history,
      r.type.name = simple ∧ s.type.name = simple ∧ r.qualifiedName ≠ s.qualifiedName) ∧
    (∀ simple names, c.ambiguous.get? simple = some names →
      names.toList.Pairwise (· < ·) ∧ ∀ name, name ∈ names.toList ↔
        ∃ r ∈ history, r.type.name = simple ∧ r.qualifiedName = name) ∧
    (∀ r ∈ history, ¬ c.ambiguous.contains r.type.name →
      ∃ last, history.findRev? (·.type.name == r.type.name) = some last ∧
        ∀ reference : TypeReference, reference.name = r.type.name →
          c.resolve reference = some last.type) ∧
    ∀ text u, SourceUnit.ofText false text = .ok u → ∀ r ∈ u.registrations, r.IsPackaged := by
  intro c history
  have hrecords : c.Records history := records_ofRequests requests
  refine ⟨fun simple => hrecords.contains_ambiguous_iff, ?_, ?_, ?_⟩
  · intro simple names hnames
    exact ⟨names.pairwise_toList, hrecords.mem_ambiguous_iff hnames⟩
  · intro r hr hclear
    cases hlast : history.findRev? (·.type.name == r.type.name) with
    | none => exact absurd (beq_self_eq_true _) (findRev?_eq_none_iff.1 hlast r hr)
    | some last =>
        refine ⟨last, rfl, fun reference hname => ?_⟩
        rw [hrecords.resolve_of_clear hpackaged hr hclear hname, hlast, Option.map_some]
  · intro text u hread
    exact (SourceUnit.wellFormed_of_ofText hread).isPackaged

/-- An ambiguous name and one that is entered twice with the same package, where the later interface is
meant with whatever qualifier. -/
theorem ambiguous_ofRequests_two_packages :
    let api : DeclaredType := ⟨"Api", .interfaceType, [], [], []⟩
    let store : DeclaredType := ⟨"Store", .interfaceType, [], [], []⟩
    let later : DeclaredType := ⟨"Store", .interfaceType, [], [⟨"find", "User", [], []⟩], []⟩
    let requests : List Request :=
      [.unit ⟨some "a", [api, store]⟩, .type api "b.", .type later "a."]
    let c := ofRequests requests
    (∀ r ∈ requests.flatMap (·.registrations), r.IsPackaged) ∧
      ¬ c.ambiguous.contains "Store" ∧ c.ambiguous.contains "Api" ∧
      c.resolve ⟨some "x", "Store"⟩ = some later := by
  intro api store later requests c
  have hhistory : requests.flatMap (·.registrations) =
      [⟨"a.", api⟩, ⟨"a.", store⟩, ⟨"b.", api⟩, ⟨"a.", later⟩] := by decide
  have hpackaged : ∀ r ∈ requests.flatMap (·.registrations), r.IsPackaged := by
    rw [hhistory]
    simp only [List.forall_mem_cons]
    exact ⟨⟨by decide, .inr ⟨"a", by decide⟩⟩, ⟨by decide, .inr ⟨"a", by decide⟩⟩,
      ⟨by decide, .inr ⟨"b", by decide⟩⟩, ⟨by decide, .inr ⟨"a", by decide⟩⟩, List.forall_mem_nil _⟩
  have hclear : ¬ c.ambiguous.contains "Store" := by decide
  obtain ⟨hambiguous, -, hmeans, -⟩ := ambiguous_ofRequests requests hpackaged
  rw [hhistory] at hambiguous hmeans
  refine ⟨hpackaged, hclear, ?_, ?_⟩
  · exact (hambiguous "Api").2 ⟨⟨"a.", api⟩, by decide, ⟨"b.", api⟩, by decide, rfl, rfl, by decide⟩
  · obtain ⟨last, hlast, hresolve⟩ := hmeans ⟨"a.", store⟩ (by decide) hclear
    have hlater : last = ⟨"a.", later⟩ := by
      apply Option.some.inj
      rw [← hlast]
      decide
    rw [hlater] at hresolve
    exact hresolve _ rfl

/-- In whatever order interfaces with distinct qualified names are entered, a reference with a qualifier
that spells one of these names means that interface. -/
theorem resolve_qualified_reordered {requests requests' : List Request}
    (hperm : (requests.flatMap (·.registrations)).Perm (requests'.flatMap (·.registrations)))
    (hpackaged : ∀ r ∈ requests.flatMap (·.registrations), r.IsPackaged)
    (hdistinct : ((requests.flatMap (·.registrations)).map (·.qualifiedName)).Nodup)
    {r : Registration} (hr : r ∈ requests.flatMap (·.registrations)) {reference : TypeReference}
    {q : String} (hqualifier : reference.qualifier = some q) (hne : q ≠ "")
    (hkey : reference.qualifiedKey = r.qualifiedName) :
    (ofRequests requests).resolve reference = some r.type ∧
      (ofRequests requests').resolve reference = some r.type := by
  have hpackaged' : ∀ r ∈ requests'.flatMap (·.registrations), r.IsPackaged :=
    fun r hr => hpackaged r (hperm.mem_iff.2 hr)
  have hdistinct' : ((requests'.flatMap (·.registrations)).map (·.qualifiedName)).Nodup :=
    (hperm.map _).nodup_iff.1 hdistinct
  constructor
  · exact (records_ofRequests requests).resolve_of_qualified hpackaged hdistinct hr hqualifier hne
      hkey
  · exact (records_ofRequests requests').resolve_of_qualified hpackaged' hdistinct'
      (hperm.mem_iff.1 hr) hqualifier hne hkey

/-- Three interfaces with one simple name, one of them without a package, in two orders. -/
theorem resolve_qualified_reordered_three :
    let api (name : String) : DeclaredType := ⟨"Api", .interfaceType, [], [⟨name, "User", [], []⟩], []⟩
    let requests : List Request :=
      [.unit ⟨some "a", [api "one"]⟩, .unit ⟨some "b", [api "two"]⟩, .type (api "three") ""]
    let requests' : List Request :=
      [.type (api "two") "b.", .type (api "three") "", .type (api "one") "a."]
    let reference : TypeReference := ⟨some "b", "Api"⟩
    (requests.flatMap (·.registrations)).Perm (requests'.flatMap (·.registrations)) ∧
      (∀ r ∈ requests.flatMap (·.registrations), r.IsPackaged) ∧
      ((requests.flatMap (·.registrations)).map (·.qualifiedName)).Nodup ∧
      (ofRequests requests).resolve reference = some (api "two") ∧
      (ofRequests requests').resolve reference = some (api "two") := by
  intro api requests requests' reference
  have hhistory : requests.flatMap (·.registrations) =
      [⟨"a.", api "one"⟩, ⟨"b.", api "two"⟩, ⟨"", api "three"⟩] := by decide
  have hperm : (requests.flatMap (·.registrations)).Perm
      (requests'.flatMap (·.registrations)) := by decide
  have hpackaged : ∀ r ∈ requests.flatMap (·.registrations), r.IsPackaged := by
    rw [hhistory]
    simp only [List.forall_mem_cons]
    exact ⟨⟨by decide, .inr ⟨"a", by decide⟩⟩, ⟨by decide, .inr ⟨"b", by decide⟩⟩,
      ⟨by decide, .inl rfl⟩, List.forall_mem_nil _⟩
  have hdistinct : ((requests.flatMap (·.registrations)).map (·.qualifiedName)).Nodup := by decide
  have hmem : ⟨"b.", api "two"⟩ ∈ requests.flatMap (·.registrations) := by decide
  exact ⟨hperm, hpackaged, hdistinct, resolve_qualified_reordered hperm hpackaged hdistinct hmem rfl
    (by decide) (by decide)⟩

end Catalog

end EndpointAtlas
