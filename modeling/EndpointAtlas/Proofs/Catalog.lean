import EndpointAtlas.Catalog
import EndpointAtlas.Proofs.SortedMap

/-!
# What a catalog remembers

A catalog keeps one map for simple and qualified names alike, so an interface can lose its place under
either name to one with quite another qualified name. What the map holds is still told by the history
of the interfaces entered: under each name the last one that goes by it.
-/

namespace EndpointAtlas

/-- An interface as it is entered: with what comes before its simple name in its qualified name. -/
structure Registration where
  lead : String
  type : DeclaredType
  deriving DecidableEq, Repr, Inhabited

namespace Registration

def qualifiedName (r : Registration) : String := r.lead ++ r.type.name

/-- An interface goes by its simple and by its qualified name. -/
def goesBy (r : Registration) (name : String) : Bool :=
  name == r.type.name || name == r.qualifiedName

/-- The qualified names of the interfaces with a simple name, if there are any. -/
def namesOf (history : List Registration) (simple : String) : Option SortedSet :=
  match (history.filter (·.type.name == simple)).map (·.qualifiedName) with
  | [] => none
  | names => some (.ofList names)

theorem namesOf_concat (history : List Registration) (r : Registration) (simple : String) :
    namesOf (history ++ [r]) simple =
      if simple = r.type.name then
        some (((namesOf history simple).getD .empty).insert r.qualifiedName)
      else namesOf history simple := by
  by_cases h : simple = r.type.name
  · subst h
    rw [if_pos rfl, namesOf, namesOf]
    simp only [List.filter_append, List.map_append, List.filter_cons, beq_self_eq_true, if_true,
      List.filter_nil, List.map_cons, List.map_nil]
    cases hnames : (history.filter (·.type.name == r.type.name)).map (·.qualifiedName) with
    | nil => rfl
    | cons name names => simp [← SortedSet.ofList_concat]
  · have hother : (r.type.name == simple) = false := by
      simpa using Ne.symm h
    simp [namesOf, h, hother]

end Registration

def SourceUnit.registrations (u : SourceUnit) : List Registration :=
  (u.types.filter (·.isInterface)).map (⟨u.lead, ·⟩)

namespace Catalog

open Registration

/-- What a catalog knows of the interfaces entered, the last of them entered last. -/
structure Records (c : Catalog) (history : List Registration) : Prop where
  entries : ∀ name, c.entries.get? name = (history.findRev? (·.goesBy name)).map (·.type)
  names : ∀ simple, c.qualifiedNames.get? simple = namesOf history simple
  count : c.count = history.length

theorem records_empty : empty.Records [] where
  entries _ := rfl
  names _ := rfl
  count := rfl

/-- An interface takes its place under both of its names, whoever went by them before. -/
theorem Records.register_interface {c : Catalog} {history : List Registration}
    (hrecords : c.Records history) {t : DeclaredType} (hinterface : t.isInterface)
    (lead : String) : (c.register t lead).Records (history ++ [⟨lead, t⟩]) := by
  have hregister : c.register t lead =
      { entries := (c.entries.insert t.name t).insert (lead ++ t.name) t
        qualifiedNames := c.qualifiedNames.modify t.name .empty (·.insert (lead ++ t.name))
        count := c.count + 1 } := by
    rw [register, enter, if_pos hinterface]
  constructor
  · intro name
    rw [hregister, findRev?_concat]
    simp only [SortedMap.get?_insert, goesBy, qualifiedName, hrecords.entries]
    by_cases hqualified : name = lead ++ t.name
    · simp [hqualified]
    · by_cases hsimple : name = t.name <;> simp [hqualified, hsimple]
  · intro simple
    rw [hregister, namesOf_concat]
    simp only [SortedMap.modify, SortedMap.get?_insert, hrecords.names, qualifiedName]
    split
    · next h => rw [h]
    · rfl
  · rw [hregister, hrecords.count]
    simp

theorem register_class {t : DeclaredType} (hclass : ¬ t.isInterface) (c : Catalog) (lead : String) :
    c.register t lead = c := by
  rw [register, enter, if_neg hclass]

/-- Only interfaces are entered, and that a type is entered is said of interfaces only. -/
theorem enter_snd (c : Catalog) (t : DeclaredType) (lead : String) :
    (c.enter t lead).2 = t.isInterface := by
  rw [enter]
  split
  · next h => exact h.symm
  · next h => exact (Bool.eq_false_iff.2 h).symm

theorem foldl_enterNext (lead : String) (ts : List DeclaredType) (c : Catalog) (n : Nat) :
    ts.foldl (enterNext lead) (c, n) =
      (ts.foldl (fun c t => c.register t lead) c, n + (ts.filter (·.isInterface)).length) := by
  induction ts generalizing c n with
  | nil => rfl
  | cons t ts ih =>
      have hstep : enterNext lead (c, n) t =
          (c.register t lead, if t.isInterface then n + 1 else n) := by
        rw [enterNext, register, ← c.enter_snd t lead]
      rw [List.foldl_cons, List.foldl_cons, hstep, ih, List.filter_cons]
      split
      · rw [List.length_cons, Nat.add_assoc, Nat.add_comm 1]
      · rfl

/-- Entering a source file is entering its types one by one, and counting the interfaces. -/
theorem enterUnit_eq (c : Catalog) (u : SourceUnit) :
    c.enterUnit u =
      (u.types.foldl (fun c t => c.register t u.lead) c, u.registrations.length) := by
  rw [enterUnit, foldl_enterNext, Nat.zero_add, SourceUnit.registrations, List.length_map]

theorem Records.registerUnit {c : Catalog} {history : List Registration}
    (hrecords : c.Records history) (u : SourceUnit) :
    (c.registerUnit u).Records (history ++ u.registrations) := by
  have hfold : c.registerUnit u = u.types.foldl (fun c t => c.register t u.lead) c := by
    rw [Catalog.registerUnit, enterUnit_eq]
  rw [hfold, SourceUnit.registrations]
  clear hfold
  induction u.types generalizing c history with
  | nil => simpa using hrecords
  | cons t ts ih =>
      rw [List.foldl_cons, List.filter_cons]
      by_cases hinterface : t.isInterface
      · have hnext := ih (hrecords.register_interface hinterface u.lead)
        rwa [if_pos hinterface, List.map_cons, List.append_cons]
      · rw [register_class hinterface, if_neg hinterface]
        exact ih hrecords

/-- The catalog of source files knows their interfaces, file by file. -/
theorem records_ofUnits (us : List SourceUnit) :
    (ofUnits us).Records (us.flatMap (·.registrations)) := by
  induction us using List.reverseRecOn with
  | nil => exact records_empty
  | append_singleton us u ih =>
      rw [ofUnits, List.foldl_append, List.foldl_cons, List.foldl_nil, List.flatMap_append,
        List.flatMap_singleton]
      exact ih.registerUnit u

/-- A reference means the last interface that goes by its qualified key, else the last one that goes
by its simple name. -/
theorem Records.resolve {c : Catalog} {history : List Registration} (hrecords : c.Records history)
    (r : TypeReference) :
    c.resolve r =
      ((history.findRev? (·.goesBy r.qualifiedKey)).or
        (history.findRev? (·.goesBy r.name))).map (·.type) := by
  rw [Catalog.resolve, hrecords.entries, hrecords.entries]
  cases history.findRev? (·.goesBy r.qualifiedKey) <;> rfl

end Catalog

/-- What a catalog is asked to enter: a type with what comes before its name, or a source file. -/
inductive Request where
  | type (t : DeclaredType) (lead : String)
  | unit (u : SourceUnit)

def Request.registrations : Request → List Registration
  | type t lead => if t.isInterface then [⟨lead, t⟩] else []
  | unit u => u.registrations

theorem Request.isInterface_of_mem {q : Request} {r : Registration} (h : r ∈ q.registrations) :
    r.type.isInterface := by
  cases q with
  | type t lead =>
      rw [registrations] at h
      split at h
      · next hinterface =>
        rw [List.mem_singleton.1 h]
        exact hinterface
      · simp at h
  | unit u =>
      obtain ⟨t, ht, rfl⟩ := List.mem_map.1 h
      exact (List.mem_filter.1 ht).2

namespace Catalog

def serve (c : Catalog) : Request → Catalog
  | .type t lead => c.register t lead
  | .unit u => c.registerUnit u

def ofRequests (requests : List Request) : Catalog := requests.foldl serve empty

theorem Records.serve {c : Catalog} {history : List Registration} (hrecords : c.Records history)
    (q : Request) : (c.serve q).Records (history ++ q.registrations) := by
  cases q with
  | type t lead =>
      rw [Catalog.serve, Request.registrations]
      by_cases hinterface : t.isInterface
      · rw [if_pos hinterface]
        exact hrecords.register_interface hinterface lead
      · rw [if_neg hinterface, register_class hinterface, List.append_nil]
        exact hrecords
  | unit u => exact hrecords.registerUnit u

theorem records_ofRequests (requests : List Request) :
    (ofRequests requests).Records (requests.flatMap (·.registrations)) := by
  induction requests using List.reverseRecOn with
  | nil => exact records_empty
  | append_singleton requests q ih =>
      rw [ofRequests, List.foldl_append, List.foldl_cons, List.foldl_nil, List.flatMap_append,
        List.flatMap_singleton]
      exact ih.serve q

/-- Whatever was entered before, a reference means the interface entered last among those that go by
its qualified key, else the last among those that go by its simple name. Classes are refused and not
counted. -/
theorem resolve_ofRequests (requests : List Request) :
    let c := ofRequests requests
    let history := requests.flatMap (·.registrations)
    (∀ r : TypeReference, c.resolve r =
      ((history.findRev? (·.goesBy r.qualifiedKey)).or
        (history.findRev? (·.goesBy r.name))).map (·.type)) ∧
    (∀ r t, c.resolve r = some t → t.isInterface) ∧
    c.count = history.length ∧
    (∀ (d : Catalog) t lead, (d.enter t lead).2 = t.isInterface) ∧
    ∀ (d : Catalog) (u : SourceUnit), (d.enterUnit u).2 = u.types.countP (·.isInterface) := by
  intro c history
  have hrecords : c.Records history := records_ofRequests requests
  refine ⟨hrecords.resolve, ?_, hrecords.count, enter_snd, ?_⟩
  · intro r t hresolved
    rw [hrecords.resolve] at hresolved
    obtain ⟨found, hfound, rfl⟩ := Option.map_eq_some_iff.1 hresolved
    have hmem : found ∈ history := by
      rcases Option.or_eq_some_iff.1 hfound with hkey | ⟨-, hname⟩
      · exact mem_of_findRev? hkey
      · exact mem_of_findRev? hname
    obtain ⟨q, -, hq⟩ := List.mem_flatMap.1 hmem
    exact Request.isInterface_of_mem hq
  · intro d u
    rw [enterUnit_eq, SourceUnit.registrations, List.length_map, List.countP_eq_length_filter]

end Catalog

end EndpointAtlas
