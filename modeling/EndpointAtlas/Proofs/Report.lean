import EndpointAtlas.Report
import EndpointAtlas.Usage
import EndpointAtlas.Proofs.FileTree
import EndpointAtlas.Proofs.JsonText
import EndpointAtlas.Proofs.Utf8

/-!
# Reports are read back

What is written of an inventory or of a usage says all of it, so reading the file under the same path
gives the same inventory or usage.
-/

namespace EndpointAtlas

open Json

theorem Inventory.ofJson?_toJson (i : Inventory) : ofJson? (i.toJson ++ ['\n']) = some i := by
  have hlist (types : List String) :
      TakesBack (readArray readString) (writeArray fun _ => writeString) types :=
    takesBack_array fun s _ => takesBack_string s
  have hentry (m : EndpointMap) :
      TakesBack (readObject (readArray readString))
        (writeObject (writeArray fun _ => writeString)) m :=
    takesBack_object fun e _ => hlist e.2
  have hwhole := readAll_write (takesBack_object fun e (_ : e ∈ i.controllers.toList) => hentry e.2)
  rw [ofJson?, toJson, hwhole]
  rfl

theorem Usage.ofJson?_toJson {u : Usage} (hcounts : ∀ type n, u.get? type = some n → n < UInt64.size) :
    ofJson? (u.toJson ++ ['\n']) = some u := by
  have hcount : ∀ e ∈ u.counts.toList, TakesBack readCount (fun _ => writeCount) e.2 := by
    rintro ⟨type, n⟩ he
    have hn := hcounts type n (SortedMap.get?_eq_some_iff.2 he)
    exact takesBack_count (Nat.le_of_lt_succ hn)
  rw [ofJson?, toJson, readAll_write (takesBack_object hcount)]
  rfl

namespace Report

/-- A text, read with a reader of texts, gives a value: as it is, and from every file to which it can
be written. -/
def GivesBack {α : Type} (reader : List Char → Option α) (text : List Char) (x : α) : Prop :=
  reader (text ++ ['\n']) = some x ∧
    ∀ t current path u, write t current path text = (u, none) → read reader u current path = .ok x

theorem exists_write_of_write {t u : FileTree} {current : Place} {path : String} {text : List Char}
    (h : write t current path text = (u, none)) :
    ∃ s : FileTree, s.write current path (Text.Utf8.encode (text ++ ['\n'])) = .ok u := by
  rw [write] at h
  split at h
  next s failure _ =>
  cases failure with
  | some f => cases h
  | none =>
      cases hfile : s.write current path (Text.Utf8.encode (text ++ ['\n'])) with
      | error f =>
          rw [hfile] at h
          cases h
      | ok v =>
          rw [hfile] at h
          cases h
          exact ⟨s, hfile⟩

theorem givesBack_of_reader {α : Type} {reader : List Char → Option α} {text : List Char} {x : α}
    (hreader : reader (text ++ ['\n']) = some x) : GivesBack reader text x := by
  refine ⟨hreader, ?_⟩
  intro t current path u hwrite
  obtain ⟨s, hs⟩ := exists_write_of_write hwrite
  rw [read, FileTree.find_write hs]
  simp only
  rw [Text.Utf8.decode?_encode, Option.bind_some, hreader]

/-- The reports of every inventory, and of every usage whose counts are below 2^64, are read back. -/
theorem givesBack_toJson :
    (∀ i : Inventory, GivesBack Inventory.ofJson? i.toJson i) ∧
      ∀ u : Usage, (∀ type n, u.get? type = some n → n < UInt64.size) →
        GivesBack Usage.ofJson? u.toJson u :=
  ⟨fun i => givesBack_of_reader i.ofJson?_toJson,
    fun _ hcounts => givesBack_of_reader (Usage.ofJson?_toJson hcounts)⟩

/-- The largest count, and texts with a control character and a character beyond U+FFFF. -/
theorem givesBack_toJson_largest_count :
    let u : Usage := ⟨.ofList [("😀\t", 18446744073709551615), ("", 0)]⟩
    (∀ type n, u.get? type = some n → n < UInt64.size) ∧
      ∃ t, write .empty [] "out/usage.json" u.toJson = (t, none) ∧
        read Usage.ofJson? t [] "out/usage.json" = .ok u := by
  intro u
  have hcounts : ∀ type n, u.get? type = some n → n < UInt64.size := by
    intro type n h
    have hall : ∀ e ∈ u.counts.toList, e.2 < UInt64.size := by decide
    exact hall (type, n) (SortedMap.get?_eq_some_iff.1 h)
  have hwritten : (write .empty [] "out/usage.json" u.toJson).2 = none := by decide
  have hwrite : write .empty [] "out/usage.json" u.toJson =
      ((write .empty [] "out/usage.json" u.toJson).1, none) := Prod.ext rfl hwritten
  exact ⟨hcounts, _, hwrite, (givesBack_toJson.2 u hcounts).2 _ _ _ _ hwrite⟩

end Report

end EndpointAtlas
