import EndpointAtlas.Sorted.Map

/-!
Reading JSON texts of a known shape. A reader takes a value off the start of a text and gives the rest;
it gives nothing where the text has another shape or is no JSON.
-/

namespace EndpointAtlas.Json

abbrev Reader (α : Type) := List Char → Option (α × List Char)

def isBlank (c : Char) : Bool := c == ' ' || c == '\t' || c == '\n' || c == '\r'

def skipBlanks (cs : List Char) : List Char := cs.dropWhile isBlank

def hexValue? (c : Char) : Option Nat :=
  if '0' ≤ c && c ≤ '9' then some (c.toNat - 48)
  else if 'a' ≤ c && c ≤ 'f' then some (c.toNat - 87)
  else if 'A' ≤ c && c ≤ 'F' then some (c.toNat - 55)
  else none

def hexNumber? (a b c d : Char) : Option Nat :=
  match hexValue? a, hexValue? b, hexValue? c, hexValue? d with
  | some a, some b, some c, some d => some (((a * 16 + b) * 16 + c) * 16 + d)
  | _, _, _, _ => none

/-- The character that a letter stands for after a backslash. -/
def unescape? (c : Char) : Option Char :=
  match c with
  | '"' => some '"'
  | '\\' => some '\\'
  | '/' => some '/'
  | 'b' => some (Char.ofNat 8)
  | 'f' => some (Char.ofNat 12)
  | 'n' => some '\n'
  | 'r' => some '\r'
  | 't' => some '\t'
  | _ => none

def prepend (c : Char) (rest : Option (List Char × List Char)) :
    Option (List Char × List Char) :=
  rest.map fun r => (c :: r.1, r.2)

/-- Reads the inside of a string up to its closing quote. A character beyond U+FFFF may be written as
two escapes, each of them a half that means nothing alone. -/
def readChars : Reader (List Char)
  | [] => none
  | '"' :: cs => some ([], cs)
  | '\\' :: 'u' :: a :: b :: c :: d :: cs =>
    match hexNumber? a b c d with
    | none => none
    | some n =>
      if 0xD800 ≤ n && n < 0xDC00 then
        match cs with
        | '\\' :: 'u' :: e :: f :: g :: h :: cs =>
          match hexNumber? e f g h with
          | some m =>
            if 0xDC00 ≤ m && m < 0xE000 then
              prepend (Char.ofNat (0x10000 + (n - 0xD800) * 0x400 + (m - 0xDC00))) (readChars cs)
            else none
          | none => none
        | _ => none
      else if 0xDC00 ≤ n && n < 0xE000 then none
      else prepend (Char.ofNat n) (readChars cs)
  | '\\' :: c :: cs =>
    match unescape? c with
    | some c => prepend c (readChars cs)
    | none => none
  | c :: cs => if c.toNat < 0x20 || c == '\\' then none else prepend c (readChars cs)

def readString : Reader String
  | '"' :: cs => (readChars cs).map fun r => (.ofList r.1, r.2)
  | _ => none

def maxCount : Nat := 18446744073709551615

def readCount : Reader Nat
  | '0' :: cs => some (0, cs)
  | cs =>
    let digits := cs.takeWhile Char.isDigit
    let n := digits.foldl (fun n d => 10 * n + (d.toNat - 48)) 0
    if digits.isEmpty || maxCount < n then none else some (n, cs.dropWhile Char.isDigit)

/-- Reads items with commas between them, after the first opening bracket and blanks. Each item takes
at least one character, which `fuel` counts. -/
def readItems {α : Type} (read : Reader α) (closing : Char) (fuel : Nat) :
    Reader (List α)
  | cs =>
    match fuel with
    | 0 => none
    | fuel + 1 =>
      match read cs with
      | none => none
      | some (x, cs) =>
        match skipBlanks cs with
        | c :: cs =>
          if c == closing then some ([x], cs)
          else if c == ',' then
            (readItems read closing fuel (skipBlanks cs)).map fun r => (x :: r.1, r.2)
          else none
        | [] => none

def readBlock {α : Type} (opening closing : Char) (read : Reader α) : Reader (List α)
  | [] => none
  | c :: cs =>
    if c == opening then
      match skipBlanks cs with
      | [] => none
      | d :: rest =>
        if d == closing then some ([], rest)
        else readItems read closing (d :: rest).length (d :: rest)
    else none

def readArray {α : Type} (read : Reader α) : Reader (List α) := readBlock '[' ']' read

def readMember {α : Type} (read : Reader α) : Reader (String × α) := fun cs =>
  match readString cs with
  | none => none
  | some (key, cs) =>
    match skipBlanks cs with
    | ':' :: cs => (read (skipBlanks cs)).map fun r => ((key, r.1), r.2)
    | _ => none

/-- Reads an object. The last value of a key counts. -/
def readObject {α : Type} (read : Reader α) : Reader (SortedMap String α) := fun cs =>
  (readBlock '\x7b' '\x7d' (readMember read) cs).map fun r => (.ofList r.1, r.2)

def readAll {α : Type} (read : Reader α) (cs : List Char) : Option α :=
  match read (skipBlanks cs) with
  | some (x, rest) => if (skipBlanks rest).isEmpty then some x else none
  | none => none

end EndpointAtlas.Json
