/-!
Maps that list their entries in ascending order of the keys. `get?` is the view of a map: each
operation is described by what it does to `get?`.
-/

namespace EndpointAtlas

theorem lookup_entry {κ α : Type} [DecidableEq κ] (k l : κ) (v : α) (xs : List (κ × α)) :
    ((k, v) :: xs).lookup l = if l = k then some v else xs.lookup l := by
  rw [List.lookup_cons]
  cases h : l == k <;> simp_all

section

variable {κ α : Type} [LT κ] [DecidableEq κ] [DecidableLT κ]

/-- Adds an entry to a list that ascends by key, in the place of an entry with the same key. -/
def insertEntry (k : κ) (v : α) : List (κ × α) → List (κ × α)
  | [] => [(k, v)]
  | (l, w) :: rest =>
    if k < l then (k, v) :: (l, w) :: rest
    else if k = l then (k, v) :: rest
    else (l, w) :: insertEntry k v rest

theorem lookup_insertEntry (k l : κ) (v : α) (xs : List (κ × α)) :
    (insertEntry k v xs).lookup l = if l = k then some v else xs.lookup l := by
  induction xs with
  | nil => exact lookup_entry k l v []
  | cons x xs ih =>
    obtain ⟨m, w⟩ := x
    simp only [insertEntry]
    split
    · exact lookup_entry k l v _
    · split
      · next h =>
        rw [lookup_entry, lookup_entry, h]
        split <;> rfl
      · next h =>
        rw [lookup_entry, ih, lookup_entry]
        by_cases hm : l = m
        · simp [hm, Ne.symm h]
        · simp [hm]

theorem mem_insertEntry {k : κ} {v : α} {xs : List (κ × α)} {e : κ × α}
    (h : e ∈ insertEntry k v xs) : e = (k, v) ∨ e ∈ xs := by
  induction xs with
  | nil => simpa [insertEntry] using h
  | cons x xs ih =>
    obtain ⟨l, w⟩ := x
    simp only [insertEntry] at h
    split at h
    · simpa using h
    · split at h
      · grind
      · grind

variable [LE κ] [Std.IsLinearOrder κ] [Std.LawfulOrderLT κ]

theorem pairwise_insertEntry (k : κ) (v : α) {xs : List (κ × α)}
    (h : xs.Pairwise fun a b => a.1 < b.1) :
    (insertEntry k v xs).Pairwise fun a b => a.1 < b.1 := by
  induction xs with
  | nil => simp [insertEntry]
  | cons x xs ih =>
    obtain ⟨l, w⟩ := x
    have hx := List.pairwise_cons.1 h
    simp only [insertEntry]
    split
    · next hk =>
      refine List.pairwise_cons.2 ⟨fun e he => ?_, h⟩
      rcases List.mem_cons.1 he with rfl | he
      · exact hk
      · exact Std.lt_trans hk (hx.1 e he)
    · split
      · next hk => exact List.pairwise_cons.2 ⟨fun e he => hk ▸ hx.1 e he, hx.2⟩
      · next hlt hne =>
        refine List.pairwise_cons.2 ⟨fun e he => ?_, ih hx.2⟩
        rcases mem_insertEntry he with rfl | he
        · rcases Std.lt_trichotomy k l with h | h | h
          · exact absurd h hlt
          · exact absurd h hne
          · exact h
        · exact hx.1 e he

end

/-- A map whose entries ascend by key. -/
structure SortedMap (κ α : Type) [LT κ] where
  toList : List (κ × α)
  sorted : toList.Pairwise fun a b => a.1 < b.1

namespace SortedMap

variable {κ α β : Type} [LT κ]

instance [Repr κ] [Repr α] : Repr (SortedMap κ α) := ⟨fun m n => reprPrec m.toList n⟩

instance [DecidableEq κ] [DecidableEq α] : DecidableEq (SortedMap κ α) := fun m n =>
  decidable_of_iff (m.toList = n.toList) (by cases m; cases n; simp)

def empty : SortedMap κ α := ⟨[], .nil⟩

instance : EmptyCollection (SortedMap κ α) := ⟨empty⟩

instance : Inhabited (SortedMap κ α) := ⟨empty⟩

def isEmpty (m : SortedMap κ α) : Bool := m.toList.isEmpty

def size (m : SortedMap κ α) : Nat := m.toList.length

def keys (m : SortedMap κ α) : List κ := m.toList.map (·.1)

def values (m : SortedMap κ α) : List α := m.toList.map (·.2)

def get? [DecidableEq κ] (m : SortedMap κ α) (k : κ) : Option α := m.toList.lookup k

def contains [DecidableEq κ] (m : SortedMap κ α) (k : κ) : Bool := (m.get? k).isSome

def mapValues (f : α → β) (m : SortedMap κ α) : SortedMap κ β :=
  ⟨m.toList.map fun e => (e.1, f e.2), by simpa [List.pairwise_map] using m.sorted⟩

def filter (p : κ → α → Bool) (m : SortedMap κ α) : SortedMap κ α :=
  ⟨m.toList.filter fun e => p e.1 e.2, m.sorted.filter _⟩

section

variable [LE κ] [Std.IsLinearOrder κ] [Std.LawfulOrderLT κ] [DecidableEq κ] [DecidableLT κ]

/-- Gives a key a value; a value it had before is lost. -/
def insert (m : SortedMap κ α) (k : κ) (v : α) : SortedMap κ α :=
  ⟨insertEntry k v m.toList, pairwise_insertEntry k v m.sorted⟩

theorem get?_insert (m : SortedMap κ α) (k l : κ) (v : α) :
    (m.insert k v).get? l = if l = k then some v else m.get? l :=
  lookup_insertEntry k l v m.toList

theorem mem_keys_insert {m : SortedMap κ α} {k l : κ} {v : α} (h : l ∈ (m.insert k v).keys) :
    l = k ∨ l ∈ m.keys := by
  simp only [keys, insert, List.mem_map] at h ⊢
  obtain ⟨e, he, rfl⟩ := h
  rcases mem_insertEntry he with rfl | he
  · exact .inl rfl
  · exact .inr ⟨e, he, rfl⟩

/-- Changes the value of a key, which is `start` where there is none yet. -/
def modify (m : SortedMap κ α) (k : κ) (start : α) (f : α → α) : SortedMap κ α :=
  m.insert k (f ((m.get? k).getD start))

/-- The map of a list of entries, the last of several with one key. -/
def ofList (entries : List (κ × α)) : SortedMap κ α :=
  entries.foldl (fun m e => m.insert e.1 e.2) empty

end

end SortedMap

end EndpointAtlas
