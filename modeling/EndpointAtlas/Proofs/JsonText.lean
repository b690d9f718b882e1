import EndpointAtlas.Json.Reader
import EndpointAtlas.Json.Writer
import EndpointAtlas.Proofs.SortedMap

/-!
# Reading what was written

A reader of JSON texts takes a value off again that was written at any depth, whatever comes after it.
Only a count needs a text after it that does not go on with a digit.
-/

namespace EndpointAtlas.Json

/-- A text that does not go on with a digit. -/
def EndsCount (rest : List Char) : Prop := ∀ c ∈ rest.head?, c.isDigit = false

theorem endsCount_cons {c : Char} {rest : List Char} (h : c.isDigit = false) :
    EndsCount (c :: rest) := by
  intro d hd
  rw [List.head?_cons, Option.mem_some_iff] at hd
  exact hd ▸ h

/-- Neither a blank, which would be skipped, nor a closing bracket, which would end a list. -/
def opensValue (c : Char) : Bool := !isBlank c && c != ']' && c != '\x7d'

theorem isBlank_of_opensValue {c : Char} (h : opensValue c) : isBlank c = false := by
  simp only [opensValue, Bool.and_eq_true, Bool.not_eq_true'] at h
  exact h.1.1

theorem opensValue_of_isDigit {c : Char} (h : c.isDigit) : opensValue c := by
  cases hopens : opensValue c with
  | true => rfl
  | false =>
      simp only [opensValue, isBlank, Bool.and_eq_false_iff, Bool.not_eq_false', Bool.or_eq_true,
        beq_iff_eq, bne_eq_false_iff_eq] at hopens
      rcases hopens with ((((rfl | rfl) | rfl) | rfl) | rfl) | rfl <;> exact absurd h (by decide)

/-- What is written of a value is taken off by a reader, before any text that ends a count. -/
structure TakesBack {α : Type} (read : Reader α) (write : Nat → α → List Char) (x : α) : Prop where
  start : ∀ depth, ∃ c cs, write depth x = c :: cs ∧ opensValue c
  take : ∀ depth rest, EndsCount rest → read (write depth x ++ rest) = some (x, rest)

/-! ### Strings -/

theorem hexValue?_hexDigit : ∀ n < 16, hexValue? (hexDigit n) = some n := by decide

/-- A character without a short escape is read off its code. -/
theorem readChars_code {n : Nat} (hn : n < 0x20) (rest : List Char) :
    readChars ('\\' :: 'u' :: '0' :: '0' :: hexDigit (n / 16) :: hexDigit (n % 16) :: rest) =
      prepend (Char.ofNat n) (readChars rest) := by
  have hzero : hexValue? '0' = some 0 := by decide
  have hcode : (n / 16) * 16 + n % 16 = n := by omega
  have hhex : hexNumber? '0' '0' (hexDigit (n / 16)) (hexDigit (n % 16)) = some n := by
    rw [hexNumber?, hzero, hexValue?_hexDigit _ (by omega), hexValue?_hexDigit _ (by omega)]
    simp [hcode]
  rw [readChars, hhex]
  have hhigh : (decide (0xD800 ≤ n) && decide (n < 0xDC00)) = false := by
    simp
    omega
  have hlow : (decide (0xDC00 ≤ n) && decide (n < 0xE000)) = false := by
    simp
    omega
  simp only [hhigh, hlow, Bool.false_eq_true, if_false]

theorem readChars_escape (c : Char) (rest : List Char) :
    readChars (escape c ++ rest) = prepend c (readChars rest) := by
  have hchar : Char.ofNat c.toNat = c := Char.ofNat_toNat c
  rw [escape]
  split_ifs with hquote hline hreturn htab hback hfeed hcontrol
  · rcases (by simpa using hquote : c = '"' ∨ c = '\\') with rfl | rfl <;> simp [readChars, unescape?]
  · rw [eq_of_beq hline]
    simp [readChars, unescape?]
  · rw [eq_of_beq hreturn]
    simp [readChars, unescape?]
  · rw [eq_of_beq htab]
    simp [readChars, unescape?]
  · rw [eq_of_beq hback] at hchar
    rw [← hchar]
    simp [readChars, unescape?]
  · rw [eq_of_beq hfeed] at hchar
    rw [← hchar]
    simp [readChars, unescape?]
  · have hcode := readChars_code hcontrol rest
    rwa [hchar] at hcode
  · simp only [Bool.or_eq_true, beq_iff_eq, not_or] at hquote
    obtain ⟨hne, hback'⟩ := hquote
    rw [List.singleton_append, readChars]
    · simp [hcontrol, hback']
    · exact hne
    · intros
      exact hback' ‹_›
    · intros
      exact hback' ‹_›

theorem readChars_flatMap_escape (cs rest : List Char) :
    readChars (cs.flatMap escape ++ '"' :: rest) = some (cs, rest) := by
  induction cs with
  | nil => rw [List.flatMap_nil, List.nil_append, readChars]
  | cons c cs ih =>
      rw [List.flatMap_cons, List.append_assoc, readChars_escape, ih]
      rfl

theorem readString_writeString (s : String) (rest : List Char) :
    readString (writeString s ++ rest) = some (s, rest) := by
  have htext : writeString s ++ rest = '"' :: (s.toList.flatMap escape ++ '"' :: rest) := by
    simp [writeString]
  rw [htext, readString, readChars_flatMap_escape, Option.map_some, String.ofList_toList]

theorem takesBack_string (s : String) : TakesBack readString (fun _ => writeString) s where
  start _ := ⟨'"', _, rfl, by decide⟩
  take _ rest _ := readString_writeString s rest

/-! ### Counts -/

theorem eq_zero_of_toDigits {n : Nat} {cs : List Char} (h : Nat.toDigits 10 n = '0' :: cs) :
    n = 0 ∧ cs = [] := by
  induction n using Nat.strongRecOn generalizing cs with
  | ind n ih =>
      rw [Nat.toDigits_eq_if (by decide)] at h
      split at h
      · next hlt =>
        obtain ⟨hdigit, rfl⟩ := List.cons.inj h
        have hvalue := Nat.toNat_digitChar_sub_48_of_lt_ten hlt
        rw [hdigit] at hvalue
        exact ⟨hvalue.symm, rfl⟩
      · next hge =>
        -- the first digit is the first one of `n / 10`, which is not zero
        cases hds : Nat.toDigits 10 (n / 10) with
        | nil => exact absurd hds Nat.toDigits_ne_nil
        | cons d ds =>
            rw [hds, List.cons_append] at h
            rw [(List.cons.inj h).1] at hds
            have hzero := (ih (n / 10) (by omega) hds).1
            omega

theorem takeWhile_digits {digits rest : List Char} (hdigits : ∀ c ∈ digits, c.isDigit)
    (hrest : EndsCount rest) : (digits ++ rest).takeWhile Char.isDigit = digits ∧
      (digits ++ rest).dropWhile Char.isDigit = rest := by
  have hstop : rest.takeWhile Char.isDigit = [] ∧ rest.dropWhile Char.isDigit = rest := by
    cases rest with
    | nil => exact ⟨rfl, rfl⟩
    | cons c cs =>
        have hc : c.isDigit = false := hrest c rfl
        simp [hc]
  rw [List.takeWhile_append_of_pos hdigits, List.dropWhile_append_of_pos hdigits, hstop.1, hstop.2]
  simp

theorem readCount_writeCount {n : Nat} (hn : n ≤ maxCount) {rest : List Char}
    (hrest : EndsCount rest) : readCount (writeCount n ++ rest) = some (n, rest) := by
  have htext : writeCount n = Nat.toDigits 10 n := Nat.toList_repr
  have hdigits : ∀ c ∈ Nat.toDigits 10 n, c.isDigit := fun c hc =>
    Nat.isDigit_of_mem_toDigits (by decide) (by decide) hc
  have hvalue : (Nat.toDigits 10 n).foldl (fun n d => 10 * n + (d.toNat - 48)) 0 = n := by
    have hread := Nat.ofDigitChars_ten_toDigits (n := n)
    rwa [Nat.ofDigitChars_eq_foldl] at hread
  rw [htext]
  cases hds : Nat.toDigits 10 n with
  | nil => exact absurd hds Nat.toDigits_ne_nil
  | cons d ds =>
      by_cases hd : d = '0'
      · subst hd
        obtain ⟨rfl, rfl⟩ := eq_zero_of_toDigits hds
        rfl
      · obtain ⟨htake, hdrop⟩ := takeWhile_digits hdigits hrest
        rw [hds] at htake hdrop hvalue
        have hplain : readCount (d :: ds ++ rest) =
            let digits := (d :: ds ++ rest).takeWhile Char.isDigit
            let n := digits.foldl (fun n d => 10 * n + (d.toNat - 48)) 0
            if digits.isEmpty || maxCount < n then none
            else some (n, (d :: ds ++ rest).dropWhile Char.isDigit) := by
          rw [List.cons_append, readCount]
          intro cs h
          exact hd (List.cons.inj h).1
        rw [hplain, htake, hdrop]
        simp only [hvalue]
        rw [if_neg (by simp [hn])]

theorem takesBack_count {n : Nat} (hn : n ≤ maxCount) :
    TakesBack readCount (fun _ => writeCount) n where
  start _ := by
    cases hds : Nat.toDigits 10 n with
    | nil => exact absurd hds Nat.toDigits_ne_nil
    | cons d ds =>
        have htext : writeCount n = d :: ds := by
          rw [← hds]
          exact Nat.toList_repr
        have hd : d.isDigit := Nat.isDigit_of_mem_toDigits (by decide) (by decide)
          (hds ▸ List.mem_cons_self)
        exact ⟨d, ds, htext, opensValue_of_isDigit hd⟩
  take _ _ hrest := readCount_writeCount hn hrest

/-! ### Items between brackets -/

theorem skipBlanks_of_start {c : Char} {cs : List Char} (h : isBlank c = false) :
    skipBlanks (c :: cs) = c :: cs := by
  rw [skipBlanks, List.dropWhile_cons_of_neg (by simp [h])]

theorem skipBlanks_newLine (depth : Nat) (cs : List Char) :
    skipBlanks (newLine depth ++ cs) = skipBlanks cs := by
  have hblank : ∀ c ∈ newLine depth, isBlank c := by
    intro c hc
    rcases List.mem_cons.1 hc with rfl | hc
    · decide
    · rw [List.eq_of_mem_replicate hc]
      decide
  rw [skipBlanks, List.dropWhile_append_of_pos hblank]
  rfl

/-- What comes after an item: the items left, each on a line of its own, and the closing bracket. -/
def itemsAfter (closing : Char) (depth : Nat) (items : List (List Char)) : List Char :=
  items.flatMap (fun item => ',' :: newLine (depth + 1) ++ item) ++ newLine depth ++ [closing]

theorem itemsAfter_cons (closing : Char) (depth : Nat) (item : List Char)
    (items : List (List Char)) :
    itemsAfter closing depth (item :: items) =
      ',' :: newLine (depth + 1) ++ item ++ itemsAfter closing depth items := by
  simp [itemsAfter]

theorem endsCount_itemsAfter (closing : Char) (depth : Nat) (items : List (List Char))
    (rest : List Char) : EndsCount (itemsAfter closing depth items ++ rest) := by
  cases items with
  | nil => exact endsCount_cons (by decide)
  | cons item items =>
      rw [itemsAfter_cons]
      exact endsCount_cons (by decide)

theorem length_lt_itemsAfter (closing : Char) (depth : Nat) (items : List (List Char)) :
    items.length < (itemsAfter closing depth items).length := by
  induction items with
  | nil => simp [itemsAfter]
  | cons item items ih =>
      rw [itemsAfter_cons]
      simp only [List.length_append, List.length_cons]
      omega

theorem writeBlock_cons (opening closing : Char) (depth : Nat) (item : List Char)
    (items : List (List Char)) :
    writeBlock opening closing depth (item :: items) =
      opening :: newLine (depth + 1) ++ item ++ itemsAfter closing depth items := by
  have hjoin (xs : List (List Char)) (x : List Char) :
      List.intercalate [','] (x :: xs) = x ++ xs.flatMap (',' :: ·) := by
    induction xs generalizing x with
    | nil => simp [List.intercalate]
    | cons y ys ih =>
        have hstep : List.intercalate [','] (x :: y :: ys) =
            x ++ ',' :: List.intercalate [','] (y :: ys) := by
          simp [List.intercalate]
        rw [hstep, ih, List.flatMap_cons]
        rfl
  rw [writeBlock, List.map_cons, hjoin, itemsAfter, List.flatMap_map]
  · simp
  · simp

theorem exists_writeBlock (opening closing : Char) (depth : Nat) (items : List (List Char)) :
    ∃ cs, writeBlock opening closing depth items = opening :: cs := by
  cases items with
  | nil => exact ⟨_, rfl⟩
  | cons item items => exact ⟨_, writeBlock_cons opening closing depth item items⟩

section Items

variable {α : Type} {read : Reader α} {text : α → List Char} {opening closing : Char}

/-- The text of an item is told from a closing bracket and is read back. -/
def ItemText (read : Reader α) (text : α → List Char) (x : α) : Prop :=
  (∃ c cs, text x = c :: cs ∧ opensValue c) ∧
    ∀ rest, EndsCount rest → read (text x ++ rest) = some (x, rest)

theorem readItems_itemsAfter (hblank : isBlank closing = false) (hcomma : closing ≠ ',')
    (depth fuel : Nat) (x : α) (xs : List α) (hfuel : xs.length < fuel)
    (hx : ItemText read text x) (hxs : ∀ y ∈ xs, ItemText read text y)
    (rest : List Char) :
    readItems read closing fuel (text x ++ (itemsAfter closing depth (xs.map text) ++ rest)) =
      some (x :: xs, rest) := by
  induction xs generalizing x fuel with
  | nil =>
      obtain ⟨fuel, rfl⟩ := Nat.exists_eq_add_of_lt hfuel
      have hafter : itemsAfter closing depth (([] : List α).map text) ++ rest =
          newLine depth ++ closing :: rest := by
        simp [itemsAfter]
      rw [readItems, hx.2 _ (endsCount_itemsAfter closing depth _ rest), hafter]
      simp only
      rw [skipBlanks_newLine, skipBlanks_of_start hblank]
      simp
  | cons y ys ih =>
      obtain ⟨fuel, rfl⟩ : ∃ n, fuel = n + 1 := ⟨fuel - 1, by omega⟩
      obtain ⟨⟨c, cs, htext, hopens⟩, -⟩ := hxs y List.mem_cons_self
      have hnext := ih fuel y (by simp at hfuel; omega) (hxs y List.mem_cons_self)
        fun z hz => hxs z (List.mem_cons_of_mem y hz)
      have hafter : itemsAfter closing depth ((y :: ys).map text) ++ rest =
          ',' :: (newLine (depth + 1) ++
            (text y ++ (itemsAfter closing depth (ys.map text) ++ rest))) := by
        simp [itemsAfter_cons]
      have hskip : skipBlanks (text y ++ (itemsAfter closing depth (ys.map text) ++ rest)) =
          text y ++ (itemsAfter closing depth (ys.map text) ++ rest) := by
        rw [htext, List.cons_append, skipBlanks_of_start (isBlank_of_opensValue hopens)]
      rw [readItems, hx.2 _ (endsCount_itemsAfter closing depth _ rest), hafter]
      simp only
      rw [skipBlanks_of_start (by decide : isBlank ',' = false)]
      simp only [beq_false_of_ne hcomma.symm, beq_self_eq_true, Bool.false_eq_true, if_false, if_true]
      rw [skipBlanks_newLine, hskip, hnext]
      rfl

theorem readBlock_writeBlock (hblank : isBlank closing = false) (hcomma : closing ≠ ',')
    (hcloses : opensValue closing = false) (depth : Nat) (xs : List α) (hxs : ∀ x ∈ xs, ItemText read text x)
    (rest : List Char) :
    readBlock opening closing read (writeBlock opening closing depth (xs.map text) ++ rest) =
      some (xs, rest) := by
  cases xs with
  | nil =>
      rw [List.map_nil, writeBlock]
      simp only [List.cons_append, List.nil_append, readBlock, beq_self_eq_true, if_true]
      rw [skipBlanks_of_start hblank]
      simp
  | cons x xs =>
      have hx := hxs x List.mem_cons_self
      obtain ⟨c, cs, htext, hopens⟩ := hx.1
      have hne : c ≠ closing := by
        rintro rfl
        rw [hcloses] at hopens
        cases hopens
      have hfuel : xs.length <
          (text x ++ (itemsAfter closing depth (xs.map text) ++ rest)).length := by
        have hlength := length_lt_itemsAfter closing depth (xs.map text)
        rw [List.length_map] at hlength
        simp only [List.length_append]
        omega
      have hread := readItems_itemsAfter hblank hcomma depth _ x xs hfuel hx
        (fun y hy => hxs y (List.mem_cons_of_mem x hy)) rest
      have hblock : writeBlock opening closing depth ((x :: xs).map text) ++ rest =
          opening :: (newLine (depth + 1) ++
            (text x ++ (itemsAfter closing depth (xs.map text) ++ rest))) := by
        rw [List.map_cons, writeBlock_cons]
        simp
      rw [hblock, readBlock, beq_self_eq_true, if_pos rfl, skipBlanks_newLine]
      rw [htext, List.cons_append] at hread ⊢
      rw [skipBlanks_of_start (isBlank_of_opensValue hopens)]
      simp only [beq_false_of_ne hne, Bool.false_eq_true, if_false]
      exact hread

end Items

section Containers

variable {α : Type} {read : Reader α} {write : Nat → α → List Char}

theorem takesBack_array {xs : List α} (hxs : ∀ x ∈ xs, TakesBack read write x) :
    TakesBack (readArray read) (writeArray write) xs where
  start depth := by
    obtain ⟨cs, htext⟩ := exists_writeBlock '[' ']' depth (xs.map (write (depth + 1)))
    exact ⟨'[', cs, htext, by decide⟩
  take depth rest _ := by
    refine readBlock_writeBlock (by decide) (by decide) (by decide) depth xs ?_ rest
    intro x hx
    exact ⟨(hxs x hx).start (depth + 1), (hxs x hx).take (depth + 1)⟩

theorem readMember_append {e : String × α} (he : TakesBack read write e.2) (depth : Nat)
    {rest : List Char} (hrest : EndsCount rest) :
    readMember read (writeString e.1 ++ [':', ' '] ++ write depth e.2 ++ rest) =
      some (e, rest) := by
  obtain ⟨c, cs, htext, hopens⟩ := he.start depth
  have hskip : skipBlanks (' ' :: (write depth e.2 ++ rest)) = write depth e.2 ++ rest := by
    rw [htext]
    exact skipBlanks_of_start (isBlank_of_opensValue hopens)
  have hmember : writeString e.1 ++ [':', ' '] ++ write depth e.2 ++ rest =
      writeString e.1 ++ (':' :: ' ' :: (write depth e.2 ++ rest)) := by
    simp
  rw [hmember, readMember, readString_writeString]
  simp only
  rw [skipBlanks_of_start (by decide : isBlank ':' = false)]
  simp only
  rw [hskip, he.take depth rest hrest]
  rfl

/-- The members of an object come back in their order, and with it the map that they make. -/
theorem takesBack_object {m : SortedMap String α} (hm : ∀ e ∈ m.toList, TakesBack read write e.2) :
    TakesBack (readObject read) (writeObject write) m where
  start depth := by
    obtain ⟨cs, htext⟩ := exists_writeBlock '\x7b' '\x7d' depth (m.toList.map fun e =>
      writeString e.1 ++ [':', ' '] ++ write (depth + 1) e.2)
    exact ⟨'\x7b', cs, htext, by decide⟩
  take depth rest _ := by
    have hblock : readBlock '\x7b' '\x7d' (readMember read) (writeObject write depth m ++ rest) =
        some (m.toList, rest) := by
      rw [writeObject]
      refine readBlock_writeBlock (by decide) (by decide) (by decide) depth m.toList ?_ rest
      intro e he
      refine ⟨⟨'"', _, rfl, by decide⟩, ?_⟩
      intro rest hrest
      exact readMember_append (hm e he) (depth + 1) hrest
    rw [readObject, hblock, Option.map_some, SortedMap.ofList_toList]

/-- A whole text is read back, with the line break at its end. -/
theorem readAll_write {x : α} (hx : TakesBack read write x) :
    readAll read (write 0 x ++ ['\n']) = some x := by
  obtain ⟨c, cs, htext, hopens⟩ := hx.start 0
  have hskip : skipBlanks (write 0 x ++ ['\n']) = write 0 x ++ ['\n'] := by
    rw [htext]
    exact skipBlanks_of_start (isBlank_of_opensValue hopens)
  rw [readAll, hskip, hx.take 0 _ (endsCount_cons (by decide))]
  rfl

end Containers

end EndpointAtlas.Json
