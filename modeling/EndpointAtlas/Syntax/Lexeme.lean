import EndpointAtlas.Grammar.TerminalSet
import EndpointAtlas.Text.Identifier

/-!
The next lexeme of a source text. Blanks before a lexeme are kept as its `gap`, so that the lexemes of
a text, with their gaps, are the text again. Which terminals count depends on where the reader stands:
`Lexeme.next?` prefers the longest match among the acceptable ones, a word being a keyword only
where that keyword is acceptable. What no terminal matches is `stray`.
-/

namespace EndpointAtlas.Syntax

open Grammar Text

/-- The next piece of a text: the blanks before it, its own characters and the terminal they
spell, none for characters that spell no terminal. -/
structure Lexeme where
  gap : List Char
  text : List Char
  kind : Option Terminal
  deriving Repr, Inhabited, DecidableEq

namespace Lexeme

def isBlank (c : Char) : Bool := c == ' ' || (9 ≤ c.toNat && c.toNat ≤ 13)

/-- A character that a text can hold: every one but NUL, which no lexeme may contain. -/
def isContent (c : Char) : Bool := c.toNat != 0

/-! Each of the following gives the length of the longest match at the start of a text, 0 where there
is none. -/

/-- A run of digits in which single underscores may stand between digits, or any number of them when
`many` is set. `pending` counts the underscores just passed. -/
def digitRun (digit : Char → Bool) (many : Bool) (pending : Nat) : List Char → Nat
  | [] => 0
  | c :: cs =>
    if digit c then pending + 1 + digitRun digit many 0 cs
    else if c == '_' && (many || pending == 0) then digitRun digit many (pending + 1) cs
    else 0

private def isOctal (c : Char) : Bool := '0' ≤ c && c ≤ '7'

private def isBinary (c : Char) : Bool := c == '0' || c == '1'

private def isHex (c : Char) : Bool :=
  c.isDigit || ('a' ≤ c && c ≤ 'f') || ('A' ≤ c && c ≤ 'F')

/-- Digits with single underscores between them; the first character is a digit. -/
def digits (digit : Char → Bool) : List Char → Nat
  | [] => 0
  | c :: cs => if digit c then 1 + digitRun digit false 0 cs else 0

def numeral : List Char → Nat
  | [] => 0
  | c :: cs =>
    if c == '0' then 1
    else if c.isDigit then
      match cs with
      | '_' :: d :: ds => if d.isDigit then 3 + digitRun Char.isDigit true 0 ds else 1
      | _ => 1 + digitRun Char.isDigit true 0 cs
    else 0

/-- One more when the text at `n` starts with one of the given characters. -/
private def suffixed (n : Nat) (chars : List Char) (cs : List Char) : Nat :=
  match cs.drop n with
  | c :: _ => if n != 0 && chars.contains c then n + 1 else n
  | [] => n

def decimalInteger (cs : List Char) : Nat := suffixed (numeral cs) ['l', 'L'] cs

/-- A number after a two-character mark such as `0x`. -/
private def marked (marks : List Char) (digit : Char → Bool) : List Char → Nat
  | '0' :: m :: cs =>
    if marks.contains m then
      let n := digits digit cs
      if n == 0 then 0 else n + 2
    else 0
  | _ => 0

def hexInteger (cs : List Char) : Nat := suffixed (marked ['x', 'X'] isHex cs) ['l', 'L'] cs

def binaryInteger (cs : List Char) : Nat := suffixed (marked ['b', 'B'] isBinary cs) ['l', 'L'] cs

def octalInteger (cs : List Char) : Nat :=
  let plain := match cs with
    | '0' :: rest =>
      let n := digits isOctal rest
      if n == 0 then 0 else n + 1
    | _ => 0
  let n := max plain (marked ['o', 'O'] isOctal cs)
  suffixed n ['l', 'L'] cs

private def exponent (letters : List Char) (power : List Char → Nat) : List Char → Nat
  | e :: s :: cs =>
    if letters.contains e then
      if s == '+' || s == '-' then
        let n := power cs
        if n == 0 then 0 else n + 2
      else
        let n := power (s :: cs)
        if n == 0 then 0 else n + 1
    else 0
  | _ => 0

private def tenPower : List Char → Nat := exponent ['e', 'E'] (digits Char.isDigit)

private def floatSuffix : List Char := ['f', 'F', 'd', 'D']

def decimalFloat (cs : List Char) : Nat :=
  let whole := digits Char.isDigit cs
  let withPoint := match cs.drop whole with
    | '.' :: rest =>
      let fraction := digits Char.isDigit rest
      if whole == 0 && fraction == 0 then 0
      else
        let n := whole + 1 + fraction
        suffixed (n + tenPower (cs.drop n)) floatSuffix cs
    | _ => 0
  let plain := numeral cs
  let power := tenPower (cs.drop plain)
  let withoutPoint :=
    if plain == 0 then 0
    else
      let n := suffixed (plain + power) floatSuffix cs
      if power == 0 && n == plain then 0 else n
  max withPoint withoutPoint

def hexFloat : List Char → Nat
  | '0' :: x :: cs =>
    if x == 'x' || x == 'X' then
      let whole := digits isHex cs
      let mantissa := match cs.drop whole with
        | '.' :: rest =>
          let fraction := digits isHex rest
          if whole == 0 && fraction == 0 then 0 else whole + 1 + fraction
        | _ => whole
      if mantissa == 0 then 0
      else
        let power := exponent ['p', 'P'] numeral (cs.drop mantissa)
        if power == 0 then mantissa + 2
        else suffixed (mantissa + power) floatSuffix cs + 2
    else 0
  | _ => 0

/-- How far the inside of a character literal goes, and whether it ends in a quote. -/
def characterBody : List Char → Nat × Bool
  | [] => (0, false)
  | '\'' :: _ => (0, true)
  | '\n' :: _ => (0, false)
  | '\\' :: c :: cs =>
    if isContent c then
      let (n, closed) := characterBody cs
      (n + 2, closed)
    else (1, false)
  | c :: cs =>
    if isContent c && c != '\\' then
      let (n, closed) := characterBody cs
      (n + 1, closed)
    else (if c == '\\' then 1 else 0, false)

def characterLiteral : List Char → Nat
  | '\'' :: cs =>
    let (n, closed) := characterBody cs
    if closed && n != 0 then n + 2 else 0
  | _ => 0

def lineComment : List Char → Nat
  | '/' :: '/' :: cs => 2 + (cs.takeWhile fun c => c != '\n' && isContent c).length
  | _ => 0

def commentEnd : List Char → Nat
  | '*' :: '/' :: _ => 2
  | c :: cs =>
    let n := commentEnd cs
    if isContent c && n != 0 then n + 1 else 0
  | [] => 0

def blockComment : List Char → Nat
  | '/' :: '*' :: cs =>
    let n := commentEnd cs
    if n == 0 then 0 else n + 2
  | _ => 0

def identifier : List Char → Nat
  | c :: cs => if isIdentifierStart c then 1 + (cs.takeWhile isIdentifierPart).length else 0
  | [] => 0

private def isPlain (c : Char) : Bool := c != '"' && c != '\\' && isContent c

def stringFragment (cs : List Char) : Nat := (cs.takeWhile isPlain).length

/-- A quote inside a text block, with the text up to the next one. -/
def textBlockQuoted : List Char → Nat
  | '"' :: cs => 1 + body cs
  | _ => 0
where
  body : List Char → Nat
    | '\\' :: '"' :: cs => 2 + body cs
    | c :: cs => if isPlain c then 1 + body cs else 0
    | [] => 0

def escapeSequence : List Char → Nat
  | '\\' :: 'x' :: cs => if (cs.take 2).length == 2 && (cs.take 2).all isHex then 4 else 0
  | '\\' :: 'u' :: '\x7b' :: cs =>
    let n := (cs.takeWhile isHex).length
    if n != 0 && (cs.drop n).head? == some '\x7d' then n + 4 else 0
  | '\\' :: 'u' :: cs => if (cs.take 4).length == 4 && (cs.take 4).all isHex then 6 else 0
  | '\\' :: c :: cs =>
    if isOctal c then 2 + ((cs.take 2).takeWhile isOctal).length
    else if isContent c then 2 else 0
  | _ => 0

def otherEscape : List Char → Nat
  | '\\' :: c :: _ =>
    if isContent c && !(['b', 'f', 'n', 'r', 't', 's', '\'', '"', '\\'].contains c) then 2 else 0
  | _ => 0

def words : List (List Char × Terminal) :=
  Terminal.all.filterMap fun t =>
    match t.spelling? with
    | some s =>
      let cs := s.toList
      if cs.all isIdentifierPart then some (cs, t) else none
    | none => none

def marks : List (List Char × Terminal) :=
  Terminal.all.filterMap fun t =>
    match t.spelling? with
    | some s =>
      let cs := s.toList
      if cs.all isIdentifierPart then none else some (cs, t)
    | none => none

/-- The literals and comments, by the function that measures them. -/
def literals : List (Terminal × (List Char → Nat)) :=
  [(.decimalInteger, decimalInteger), (.hexInteger, hexInteger), (.octalInteger, octalInteger),
    (.binaryInteger, binaryInteger), (.decimalFloat, decimalFloat), (.hexFloat, hexFloat),
    (.characterLiteral, characterLiteral)]

/-- The terminals of the inside of a string or a text block, which take blanks as they are. -/
def contents : List (Terminal × (List Char → Nat)) :=
  [(.stringFragment, stringFragment), (.textBlockRun, stringFragment),
    (.escapeSequence, escapeSequence), (.otherEscape, otherEscape)]

def wordTerminals : TerminalSet :=
  TerminalSet.ofList (.identifier :: words.map (·.2))

def contentTerminals : TerminalSet :=
  TerminalSet.ofList [.stringFragment, .textBlockRun, .textBlockQuoted, .escapeSequence,
    .otherEscape, .openInterpolation]

def outsideStrings : TerminalSet :=
  TerminalSet.ofList (Terminal.all.filter fun t => !contentTerminals.contains t)

def keyword? (word : List Char) : Option Terminal := words.lookup word

abbrev Match := Option (Terminal × Nat)

/-- Keeps the longer match, the first of two equally long ones. -/
def longer (best : Match) (t : Terminal) (n : Nat) : Match :=
  match best with
  | some (_, m) => if m < n then some (t, n) else best
  | none => if n == 0 then none else some (t, n)

def matchMarks (valid : TerminalSet) (cs : List Char) (best : Match) : Match :=
  marks.foldl (fun best (spelling, t) =>
    if spelling.isPrefixOf cs && valid.contains t then longer best t spelling.length else best) best

def matchTable (table : List (Terminal × (List Char → Nat))) (valid : TerminalSet)
    (cs : List Char) (best : Match) : Match :=
  table.foldl (fun best (t, measure) =>
    if valid.contains t then longer best t (measure cs) else best) best

/-- The match of a word: a keyword where `keywords` has it, else an identifier. -/
def matchWord (valid keywords : TerminalSet) (cs : List Char) (best : Match) : Match :=
  if (valid.bits &&& wordTerminals.bits) != 0 then
    let n := identifier cs
    match keyword? (cs.take n) with
    | some t => longer best (if keywords.contains t then t else .identifier) n
    | none => longer best .identifier n
  else best

def matchComment (cs : List Char) (best : Match) : Match :=
  match cs with
  | '/' :: _ => longer (longer best .lineComment (lineComment cs)) .blockComment (blockComment cs)
  | _ => best

/-- The longest match outside strings at a text that starts with no blank. -/
def outside (valid keywords : TerminalSet) (cs : List Char) : Match :=
  let best := matchMarks valid cs none
  let best := matchWord valid keywords cs best
  let best := match cs with
    | c :: _ =>
      if c.isDigit || c == '.' || c == '\'' then matchTable literals valid cs best else best
    | [] => best
  matchComment cs best

/-- How many characters are passed over where nothing matches: an open character literal is passed
over as far as it goes. -/
def strayRun : List Char → Nat
  | '\'' :: cs => 1 + (characterBody cs).1
  | _ => 1

def strayLength (fuel : Nat) (keywords : TerminalSet) (cs : List Char) : Nat :=
  match fuel with
  | 0 => cs.length
  | fuel + 1 =>
    let n := strayRun cs
    let rest := cs.drop n
    let blanks := (rest.takeWhile isBlank).length
    match rest.drop blanks with
    | [] => min n cs.length
    | next =>
      if (outside outsideStrings keywords next).isSome then n
      else n + blanks + strayLength fuel keywords next

def cut (gap : List Char) (cs : List Char) (kind : Option Terminal) (n : Nat) :
    Lexeme × List Char :=
  (⟨gap, cs.take n, kind⟩, cs.drop n)

/-- The content of a string that starts right here. A comment wins over a text block's run of text
when it reaches further. -/
def inside (valid : TerminalSet) (cs : List Char) : Option (Lexeme × List Char) :=
  let best := matchTable contents valid cs (matchMarks (⟨valid.bits &&&
    contentTerminals.bits⟩) cs none)
  let best :=
    if valid.contains .textBlockQuoted then
      let gap := cs.takeWhile isBlank
      let ahead := cs.dropWhile isBlank
      let quoted := match gap with
        | [] => longer (matchMarks valid cs best) .textBlockQuoted (textBlockQuoted cs)
        | _ => best
      match matchComment ahead none, quoted with
      | some (t, n), some (_, m) => if m < gap.length + n then some (t, gap.length + n) else quoted
      | some (t, n), none => some (t, gap.length + n)
      | none, _ => quoted
    else best
  match best with
  | some (t, n) =>
    let gap := if t = .lineComment || t = .blockComment then cs.takeWhile isBlank else []
    let body := cs.drop gap.length
    some (cut gap body (some t) (n - gap.length))
  | none => none

private def byteOrderMark : Char := '\uFEFF'

/-- The blanks before a lexeme. A byte order mark at the very start of a text counts as one. -/
def gapOf (atStart : Bool) (cs : List Char) : List Char :=
  match cs with
  | c :: rest =>
    if atStart && c == byteOrderMark then c :: rest.takeWhile isBlank else cs.takeWhile isBlank
  | [] => []

/-- The next lexeme of a text and the text after it. `valid` holds the terminals acceptable here;
where none of them matches, any terminal counts, and a word is then a keyword only if the reader is
`lost`. At the end of the text the lexeme is the end of input. -/
def next (valid : TerminalSet) (lost atStart : Bool) (cs : List Char) : Lexeme × List Char :=
  let content := if (valid.bits &&& contentTerminals.bits) != 0 then inside valid cs else none
  match content with
  | some found => found
  | none =>
    let gap := gapOf atStart cs
    let body := cs.drop gap.length
    match body with
    | [] => (⟨gap, [], some .endOfInput⟩, [])
    | _ =>
      let keywords := if lost then outsideStrings else valid
      match outside valid keywords body with
      | some (t, n) => cut gap body (some t) n
      | none =>
        match outside outsideStrings keywords body with
        | some (t, n) => cut gap body (some t) n
        | none => cut gap body none (strayLength body.length keywords body)

end Lexeme

end EndpointAtlas.Syntax
