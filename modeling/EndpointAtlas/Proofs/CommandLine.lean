import EndpointAtlas.CommandLine
import EndpointAtlas.Proofs.Extensions
import Mathlib.Data.List.Perm.Basic

/-!
# What a command line says

A command line is a list of tokens in some order. After each token stands what all tokens so far have
said, once the value that is still waiting is settled. An option that may be given once says the same
wherever it stands, so only the extensions keep anything of the order, and what is looked for does not.
-/

namespace EndpointAtlas.CommandLine

/-! ### Tokens -/

def ValueOption.name : ValueOption → String
  | .outputDirectory => "output-dir"
  | .inventoryFile => "inventory-file"
  | .usageFile => "frequency-file"
  | .top => "top"
  | .extension => "ext"

inductive Token where
  | value (o : ValueOption) (text : String)
  | lenient
  | verbose
  | root (path : String)
  deriving DecidableEq

namespace Token

/-- A token as it is written. A value is attached to its option. -/
def word : Token → String
  | value o text => "--" ++ o.name ++ "=" ++ text
  | lenient => "--lenient"
  | verbose => "-v"
  | root path => path

def text? (o : ValueOption) : Token → Option String
  | value p text => if p = o then some text else none
  | _ => none

def root? : Token → Option String
  | root path => some path
  | _ => none

end Token

variable {ts us : List Token} {x : Token} {o : ValueOption} {text : String} {p q : Progress}
  {a : Arguments} {n : Nat}

/-- The values that an option is given, in their order. -/
def texts (o : ValueOption) (ts : List Token) : List String := ts.filterMap (Token.text? o)

def roots (ts : List Token) : List String := ts.filterMap Token.root?

/-- What some tokens say, with no value waiting. -/
def said (ts : List Token) : Progress :=
  { root := (roots ts).head?
    outputDirectory := (texts .outputDirectory ts).head?
    inventoryFile := (texts .inventoryFile ts).head?
    usageFile := (texts .usageFile ts).head?
    top := (texts .top ts).head?.bind number?
    extensions := texts .extension ts
    lenient := .lenient ∈ ts
    verbosity := ts.count .verbose
    rootSeen := !(roots ts).isEmpty }

/-- Whether nothing is said twice that may be said once, and every value is one that its option takes. -/
structure IsCommand (ts : List Token) : Prop where
  once : ∀ o, o ≠ .extension → (texts o ts).length ≤ 1
  root_once : (roots ts).length ≤ 1
  lenient_once : ts.count .lenient ≤ 1
  verbosity : ts.count .verbose ≤ maxVerbosity
  directory : ∀ d ∈ texts .outputDirectory ts, d ≠ ""
  number : ∀ s ∈ texts .top ts, ∃ n, number? s = some n
  root : ∀ r ∈ roots ts, r ≠ "" ∧ r.toList.head? ≠ some '-'

theorem texts_append (o : ValueOption) (ts us : List Token) :
    texts o (ts ++ us) = texts o ts ++ texts o us := List.filterMap_append

theorem roots_append (ts us : List Token) : roots (ts ++ us) = roots ts ++ roots us :=
  List.filterMap_append

theorem IsCommand.of_append (h : IsCommand (ts ++ us)) : IsCommand ts := by
  have hlength {xs ys : List String} {m : Nat} (hle : (xs ++ ys).length ≤ m) : xs.length ≤ m :=
    Nat.le_trans (List.length_append ▸ Nat.le_add_right _ _) hle
  refine ⟨fun o ho => hlength (texts_append o ts us ▸ h.once o ho),
    hlength (roots_append ts us ▸ h.root_once), ?_, ?_, ?_, ?_, ?_⟩
  · exact Nat.le_trans ((List.sublist_append_left ts us).count_le _) h.lenient_once
  · exact Nat.le_trans ((List.sublist_append_left ts us).count_le _) h.verbosity
  · exact fun d hd => h.directory d (texts_append _ ts us ▸ List.mem_append_left _ hd)
  · exact fun s hs => h.number s (texts_append _ ts us ▸ List.mem_append_left _ hs)
  · exact fun r hr => h.root r (roots_append ts us ▸ List.mem_append_left _ hr)

/-! ### One token -/

/-- Whether some tokens have been read and nothing else. -/
structure Reads (ts : List Token) (p : Progress) : Prop where
  settled : settle p = .ok (said ts)
  rootSeen : p.rootSeen = !(roots ts).isEmpty

theorem settle_said (ts : List Token) : settle (said ts) = .ok (said ts) := rfl

theorem reads_said (ts : List Token) : Reads ts (said ts) := ⟨settle_said ts, rfl⟩

theorem splitEquals_append {cs : List Char} (h : '=' ∉ cs) (value : List Char) :
    splitEquals (cs ++ '=' :: value) = (cs, some value) := by
  induction cs with
  | nil => rfl
  | cons c cs ih =>
      rw [List.mem_cons, not_or] at h
      rw [List.cons_append, splitEquals, if_neg (by simpa using Ne.symm h.1), ih h.2]

theorem readWord_value (hsettled : settle p = .ok q) (o : ValueOption) (text : String) :
    readWord p (Token.value o text).word = setValue q o text := by
  have hword : (Token.value o text).word.toList =
      '-' :: '-' :: (o.name.toList ++ '=' :: text.toList) := by
    simp [Token.word, String.toList_append]
  have hname : '=' ∉ o.name.toList := by cases o <;> decide
  have hoption : valueOption? o.name = some o := by cases o <;> decide
  unfold readWord
  rw [hword]
  simp only [readLong, splitEquals_append hname, String.ofList_toList, hoption, hsettled]

theorem readWord_lenient (p : Progress) : readWord p Token.lenient.word = setFlag p .lenient := rfl

theorem readWord_verbose (hsettled : settle p = .ok q) : readWord p Token.verbose.word =
    .ok { q with verbosity := min (q.verbosity + 1) maxVerbosity } := by
  change setShortFlags p ['v'] = _
  simp [setShortFlags, shortFlag?, setFlag, hsettled]

theorem readWord_root {path : String} (hne : path ≠ "") (hhead : path.toList.head? ≠ some '-') :
    readWord p (Token.root path).word = readValue p path := by
  rw [Token.word, readWord]
  cases hpath : path.toList with
  | nil => exact absurd (String.toList_eq_nil_iff.1 hpath) hne
  | cons c cs =>
      have hc : c ≠ '-' := by
        rintro rfl
        exact hhead (by rw [hpath]; rfl)
      split
      · next heq => exact absurd (List.cons.inj heq).1 hc
      · next heq => exact absurd (List.cons.inj heq).1 hc
      · rfl

theorem readValue_of_settle {path : String} (hsettled : settle p = .ok q) (hseen : p.rootSeen = false) :
    readValue p path = .ok { q with rootSeen := true, pending := some (.root path) } := by
  have hroot : readRoot p path = .ok { q with rootSeen := true, pending := some (.root path) } := by
    unfold readRoot
    rw [hseen, hsettled]
    rfl
  unfold readValue
  split
  · next hpending =>
    unfold settle at hsettled
    rw [hpending] at hsettled
    cases hsettled
  · exact hroot

theorem number?_toString (h : n ≤ maxNumber) : number? (toString n) = some n := by
  have hdigits : ∀ c ∈ Nat.toDigits 10 n, c.isDigit := fun c hc =>
    Nat.isDigit_of_mem_toDigits (by decide) (by decide) hc
  have hvalue : digitsValue (Nat.toDigits 10 n) = some n := by
    have hread := Nat.ofDigitChars_ten_toDigits (n := n)
    rw [Nat.ofDigitChars_eq_foldl] at hread
    rw [digitsValue, if_pos (by simp [Nat.toDigits_ne_nil, List.all_eq_true.2 hdigits])]
    exact congrArg some hread
  have htext : (toString n).toList = Nat.toDigits 10 n := Nat.toList_repr
  have hsign : ∀ cs, Nat.toDigits 10 n ≠ '+' :: cs := by
    intro cs hcs
    exact absurd (hdigits '+' (hcs ▸ List.mem_cons_self)) (by decide)
  rw [number?, htext]
  split
  · next hcs => exact absurd hcs (hsign _)
  · rw [hvalue, Option.filter_some, if_pos (decide_eq_true h)]

theorem texts_concat (o : ValueOption) (ts : List Token) (x : Token) :
    texts o (ts ++ [x]) = texts o ts ++ (x.text? o).toList := by
  rw [texts_append]
  cases hx : x.text? o <;> simp [texts, hx]

theorem roots_concat (ts : List Token) (x : Token) : roots (ts ++ [x]) = roots ts ++ x.root?.toList := by
  rw [roots_append]
  cases hx : x.root? <;> simp [roots, hx]

theorem setValue_said (h : IsCommand (ts ++ [.value o text])) :
    setValue (said ts) o text = .ok (said (ts ++ [.value o text])) := by
  have hfirst (ho : o ≠ .extension) : texts o ts = [] := by
    have honce := h.once o ho
    rw [texts_concat, Token.text?, if_pos rfl, List.length_append, Option.toList_some,
      List.length_singleton] at honce
    exact List.length_eq_zero_iff.1 (by omega)
  have hmem : text ∈ texts o (ts ++ [.value o text]) := by simp [texts_concat, Token.text?]
  have hvalue : o = .outputDirectory → pathValue text = .ok text := by
    rintro rfl
    unfold pathValue
    rw [if_neg]
    rw [String.isEmpty_iff]
    exact h.directory text hmem
  have hnumber : o = .top → ∃ n, number? text = some n := by
    rintro rfl
    exact h.number text hmem
  unfold said
  simp only [texts_concat, roots_concat, Token.text?, Token.root?, Option.toList_none, List.append_nil]
  cases o with
  | outputDirectory => simp [setValue, setOnce, hfirst, hvalue, Except.map]
  | inventoryFile => simp [setValue, setOnce, hfirst, Except.map]
  | usageFile => simp [setValue, setOnce, hfirst, Except.map]
  | top =>
      obtain ⟨n, hn⟩ := hnumber rfl
      simp [setValue, setOnce, numberValue, hfirst, hn, Except.map]
  | extension => simp [setValue]

theorem Reads.exists_root {path : String} (h : Reads ts p) (hcommand : IsCommand (ts ++ [.root path])) :
    ∃ q, readWord p (Token.root path).word = .ok q ∧ Reads (ts ++ [.root path]) q := by
  have hfirst : roots ts = [] := by
    have honce := hcommand.root_once
    rw [roots_concat, List.length_append, Token.root?, Option.toList_some,
      List.length_singleton] at honce
    exact List.length_eq_zero_iff.1 (by omega)
  obtain ⟨hne, hhead⟩ := hcommand.root path (by simp [roots_concat, Token.root?])
  have hseen : p.rootSeen = false := by
    rw [h.rootSeen, hfirst, List.isEmpty_nil, Bool.not_true]
  have hvalue : pathValue path = .ok path := by
    unfold pathValue
    rw [if_neg (by rwa [String.isEmpty_iff])]
  refine ⟨{ said ts with rootSeen := true, pending := some (.root path) }, ?_, ?_, ?_⟩
  · rw [readWord_root hne hhead, readValue_of_settle h.settled hseen]
  · simp [settle, said, texts_concat, roots_concat, Token.text?, Token.root?, hfirst, hvalue, Except.map]
  · simp [roots_concat, Token.root?]

/-- A token that may follow is read, and says what it says in addition. -/
theorem Reads.exists_concat (h : Reads ts p) (hcommand : IsCommand (ts ++ [x])) :
    ∃ q, readWord p x.word = .ok q ∧ Reads (ts ++ [x]) q := by
  cases x with
  | value o text =>
      refine ⟨said (ts ++ [.value o text]), ?_, reads_said _⟩
      rw [readWord_value h.settled, setValue_said hcommand]
  | lenient =>
      have hfirst : .lenient ∉ ts := by
        have honce := hcommand.lenient_once
        rw [List.count_append, List.count_singleton_self] at honce
        exact List.count_eq_zero.1 (by omega)
      refine ⟨said (ts ++ [.lenient]), ?_, reads_said _⟩
      rw [readWord_lenient, setFlag, h.settled]
      simp [said, texts_concat, roots_concat, Token.text?, Token.root?, hfirst]
  | verbose =>
      have hcount := hcommand.verbosity
      rw [List.count_append, List.count_singleton_self] at hcount
      refine ⟨said (ts ++ [.verbose]), ?_, reads_said _⟩
      rw [readWord_verbose h.settled]
      simp [said, texts_concat, roots_concat, Token.text?, Token.root?, hcount]
  | root path => exact h.exists_root hcommand

/-! ### All tokens -/

theorem word_ne_dashes (hcommand : IsCommand ts) (hx : x ∈ ts) : x.word ≠ "--" := by
  cases x with
  | value o text =>
      intro hword
      have hlength := congrArg String.length hword
      have hname : 0 < o.name.length := by cases o <;> decide
      simp only [Token.word, String.length_append, show "--".length = 2 from rfl] at hlength
      omega
  | lenient => decide
  | verbose => decide
  | root path =>
      rintro hword
      have hhead := (hcommand.root path (List.mem_filterMap.2 ⟨_, hx, rfl⟩)).2
      rw [show path = "--" from hword] at hhead
      exact hhead rfl

theorem Reads.exists_append (h : Reads ts p) (hcommand : IsCommand (ts ++ us)) :
    ∃ q, readWords p (us.map Token.word) = .ok q ∧ Reads (ts ++ us) q := by
  induction us generalizing ts p with
  | nil => exact ⟨p, rfl, by rwa [List.append_nil]⟩
  | cons x us ih =>
      rw [← List.singleton_append, ← List.append_assoc] at hcommand ⊢
      obtain ⟨q, hq, hreads⟩ := h.exists_concat hcommand.of_append
      obtain ⟨r, hr, hall⟩ := ih hreads hcommand
      have hdashes : x.word ≠ "--" := word_ne_dashes hcommand (by simp)
      refine ⟨r, ?_, hall⟩
      rw [List.singleton_append, List.map_cons, readWords, if_neg (by simpa using hdashes), hq]
      exact hr

theorem parse_eq_said (hcommand : IsCommand ts) :
    parse (ts.map Token.word) = .ok (said ts).arguments := by
  obtain ⟨q, hq, hreads⟩ := (reads_said []).exists_append hcommand
  unfold parse
  rw [show ({} : Progress) = said [] from rfl, hq]
  simp only [hreads.settled, List.nil_append, Except.map]

/-! ### The tokens for some arguments -/

/-- The values that some arguments have for an option. -/
def given (a : Arguments) : ValueOption → List String
  | .outputDirectory => a.outputDirectory.toList
  | .inventoryFile => [a.inventoryFile]
  | .usageFile => [a.usageFile]
  | .top => [toString a.top]
  | .extension => a.extensions

def tokens (a : Arguments) : List Token :=
  [.outputDirectory, .inventoryFile, .usageFile, .top, .extension].flatMap
      (fun o => (given a o).map (.value o)) ++
    List.replicate a.lenient.toNat .lenient ++ List.replicate a.verbosity .verbose ++
    a.root.toList.map .root

/-- Whether arguments can be told on a command line. Paths are not empty, the root does not look like an
option, and numbers are not too large. -/
structure CanBeTold (a : Arguments) : Prop where
  root : ∀ r ∈ a.root, r ≠ "" ∧ r.toList.head? ≠ some '-'
  outputDirectory : ∀ d ∈ a.outputDirectory, d ≠ ""
  top : a.top ≤ maxNumber
  verbosity : a.verbosity ≤ maxVerbosity

theorem texts_map_value (o p : ValueOption) (xs : List String) :
    texts o (xs.map (.value p)) = if p = o then xs else [] := by
  by_cases ho : p = o <;> simp [texts, Token.text?, List.filterMap_map, Function.comp_def, ho]

theorem texts_tokens (o : ValueOption) (a : Arguments) : texts o (tokens a) = given a o := by
  have hlenient (n : Nat) : texts o (List.replicate n .lenient) = [] :=
    List.filterMap_replicate_of_none rfl
  have hverbose (n : Nat) : texts o (List.replicate n .verbose) = [] :=
    List.filterMap_replicate_of_none rfl
  have hroot (xs : List String) : texts o (xs.map .root) = [] := by simp [texts, Token.text?]
  cases o <;> simp [tokens, texts_append, texts_map_value, hlenient, hverbose, hroot]

theorem roots_tokens (a : Arguments) : roots (tokens a) = a.root.toList := by
  have hlenient (n : Nat) : roots (List.replicate n .lenient) = [] :=
    List.filterMap_replicate_of_none rfl
  have hverbose (n : Nat) : roots (List.replicate n .verbose) = [] :=
    List.filterMap_replicate_of_none rfl
  have hvalue (o : ValueOption) (xs : List String) : roots (xs.map (.value o)) = [] := by
    simp [roots, Token.root?]
  have hroot (xs : List String) : roots (xs.map .root) = xs := by
    simp [roots, Token.root?, List.filterMap_map, Function.comp_def]
  simp [tokens, roots_append, hlenient, hverbose, hvalue, hroot]

theorem count_map_eq_zero {f : String → Token} (hf : ∀ s, f s ≠ x) (xs : List String) :
    (xs.map f).count x = 0 := by
  refine List.count_eq_zero.2 fun hmem => ?_
  obtain ⟨s, -, hs⟩ := List.mem_map.1 hmem
  exact hf s hs

theorem count_lenient_tokens (a : Arguments) : (tokens a).count .lenient = a.lenient.toNat := by
  simp [tokens, count_map_eq_zero, List.count_replicate]

theorem count_verbose_tokens (a : Arguments) : (tokens a).count .verbose = a.verbosity := by
  simp [tokens, count_map_eq_zero, List.count_replicate]

theorem head?_of_perm_toList {o : Option String} {xs : List String} (h : xs.Perm o.toList) :
    xs.head? = o := by
  cases o with
  | none => rw [List.perm_nil.1 h]; rfl
  | some s => rw [List.perm_singleton.1 h]; rfl

section Reordered

variable (h : CanBeTold a) (hperm : ts.Perm (tokens a))

include hperm

theorem texts_perm (o : ValueOption) : (texts o ts).Perm (given a o) :=
  texts_tokens o a ▸ hperm.filterMap _

theorem roots_perm : (roots ts).Perm a.root.toList := roots_tokens a ▸ hperm.filterMap Token.root?

include h

theorem isCommand_of_perm : IsCommand ts := by
  refine ⟨?_, ?_, ?_, ?_, ?_, ?_, ?_⟩
  · intro o ho
    rw [(texts_perm hperm o).length_eq]
    cases o with
    | outputDirectory => exact Option.length_toList_le
    | extension => exact absurd rfl ho
    | inventoryFile => exact Nat.le_refl _
    | usageFile => exact Nat.le_refl _
    | top => exact Nat.le_refl _
  · rw [(roots_perm hperm).length_eq]
    exact Option.length_toList_le
  · rw [hperm.count_eq, count_lenient_tokens]
    exact Bool.toNat_le a.lenient
  · rw [hperm.count_eq, count_verbose_tokens]
    exact h.verbosity
  · intro d hd
    exact h.outputDirectory d (Option.mem_toList.1 ((texts_perm hperm .outputDirectory).mem_iff.1 hd))
  · intro s hs
    have hs := List.mem_singleton.1 ((texts_perm hperm .top).mem_iff.1 hs)
    exact ⟨a.top, hs ▸ number?_toString h.top⟩
  · intro r hr
    exact h.root r (Option.mem_toList.1 ((roots_perm hperm).mem_iff.1 hr))

/-- Only the extensions may have come into another order. -/
theorem arguments_said : (said ts).arguments = { a with extensions := texts .extension ts } := by
  have hroot : (roots ts).head? = a.root := head?_of_perm_toList (roots_perm hperm)
  have hdirectory : (texts .outputDirectory ts).head? = a.outputDirectory :=
    head?_of_perm_toList (texts_perm hperm .outputDirectory)
  have hinventory : (texts .inventoryFile ts).head? = some a.inventoryFile :=
    head?_of_perm_toList (texts_perm hperm .inventoryFile)
  have husage : (texts .usageFile ts).head? = some a.usageFile :=
    head?_of_perm_toList (texts_perm hperm .usageFile)
  have htop : (texts .top ts).head? = some (toString a.top) :=
    head?_of_perm_toList (texts_perm hperm .top)
  have hlenient : decide (.lenient ∈ ts) = a.lenient := by
    rw [Bool.eq_iff_iff, decide_eq_true_iff, ← List.count_pos_iff, hperm.count_eq,
      count_lenient_tokens]
    cases a.lenient <;> decide
  simp only [said, Progress.arguments, hroot, hdirectory, hinventory, husage, htop, hlenient,
    hperm.count_eq, count_verbose_tokens, Option.bind_some, number?_toString h.top, Option.getD_some]

/-- The tokens for some arguments give these arguments back in every order that keeps that of the
extensions, and the same settings in every order. -/
theorem parse_tokens :
    (texts .extension ts = a.extensions → parse (ts.map Token.word) = .ok a) ∧
      ∃ b, parse (ts.map Token.word) = .ok b ∧
        ∀ s, Settings.ofArguments b s = Settings.ofArguments a s := by
  have hparse : parse (ts.map Token.word) = .ok { a with extensions := texts .extension ts } := by
    rw [parse_eq_said (isCommand_of_perm h hperm), arguments_said h hperm]
  refine ⟨fun hextensions => ?_, _, hparse, fun s => ?_⟩
  · rw [hparse, hextensions]
  · unfold Settings.ofArguments
    rw [Settings.normalizeExtensions_congr fun raw => (texts_perm hperm .extension).mem_iff]
    rfl

end Reordered

/-- The values look like options and hold signs that part words. The extensions are apart from each other,
and the number is the largest. -/
theorem parse_tokens_scattered :
    let a : Arguments :=
      { root := some "src=a b", outputDirectory := some "--top=1", inventoryFile := "-",
        usageFile := "a,b\n", top := 18446744073709551615, extensions := ["-v", ".kt", "="],
        lenient := true, verbosity := 2 }
    let ts : List Token := [.verbose, .value .extension "-v", .root "src=a b",
      .value .top "18446744073709551615", .value .extension ".kt", .lenient, .value .usageFile "a,b\n",
      .verbose, .value .outputDirectory "--top=1", .value .extension "=", .value .inventoryFile "-"]
    CanBeTold a ∧ ts.Perm (tokens a) ∧ parse (ts.map Token.word) = .ok a := by
  intro a ts
  have htold : CanBeTold a :=
    ⟨by rintro r ⟨⟩; decide, by rintro d ⟨⟩; decide, by decide, by decide⟩
  have hperm : ts.Perm (tokens a) := by decide
  exact ⟨htold, hperm, (parse_tokens htold hperm).1 rfl⟩

end EndpointAtlas.CommandLine
