/-!
Texts as bytes. `encode` writes each character as one to four bytes. `decodeLossy` reads any bytes:
a stretch that is no character becomes one replacement character, and such a stretch is as long as it
could still have been the start of a character. `decode?` refuses such bytes.
-/

namespace EndpointAtlas.Text.Utf8

def encodeChar (c : Char) : List UInt8 :=
  let n := c.toNat
  if n < 0x80 then [n.toUInt8]
  else if n < 0x800 then [(0xC0 + n / 0x40).toUInt8, (0x80 + n % 0x40).toUInt8]
  else if n < 0x10000 then
    [(0xE0 + n / 0x1000).toUInt8, (0x80 + n / 0x40 % 0x40).toUInt8, (0x80 + n % 0x40).toUInt8]
  else
    [(0xF0 + n / 0x40000).toUInt8, (0x80 + n / 0x1000 % 0x40).toUInt8,
      (0x80 + n / 0x40 % 0x40).toUInt8, (0x80 + n % 0x40).toUInt8]

def encode (cs : List Char) : List UInt8 := cs.flatMap encodeChar

/-- What a first byte announces: the bytes still to come, the bits it holds, and the range of the byte
after it. -/
structure Lead where
  more : Nat
  bits : Nat
  low : Nat
  high : Nat

/-- The announcement of a first byte. The ranges leave out spellings that are longer than needed,
surrogates, and all above U+10FFFF. -/
def lead? (b : Nat) : Option Lead :=
  if b < 0x80 then some ⟨0, b, 0x80, 0xBF⟩
  else if b < 0xC2 then none
  else if b < 0xE0 then some ⟨1, b - 0xC0, 0x80, 0xBF⟩
  else if b == 0xE0 then some ⟨2, 0, 0xA0, 0xBF⟩
  else if b == 0xED then some ⟨2, 0xD, 0x80, 0x9F⟩
  else if b < 0xF0 then some ⟨2, b - 0xE0, 0x80, 0xBF⟩
  else if b == 0xF0 then some ⟨3, 0, 0x90, 0xBF⟩
  else if b < 0xF4 then some ⟨3, b - 0xF0, 0x80, 0xBF⟩
  else if b == 0xF4 then some ⟨3, 4, 0x80, 0x8F⟩
  else none

/-- Reads `more` further bytes of a character, the first of them between `low` and `high`. Gives the
code and the number of bytes read, or the number of bytes that fitted. -/
def continued (more bits low high read : Nat) (bytes : List UInt8) : Except Nat (Nat × Nat) :=
  match more, bytes with
  | 0, _ => .ok (bits, read)
  | _ + 1, [] => .error read
  | more + 1, b :: bytes =>
    if low ≤ b.toNat && b.toNat ≤ high then
      continued more (bits * 0x40 + (b.toNat - 0x80)) 0x80 0xBF (read + 1) bytes
    else .error read

/-- The character at the start of some bytes, and how many bytes it takes; for bytes that start no
character, how many of them to pass over. -/
def charAt (b : UInt8) (bytes : List UInt8) : Except Nat (Char × Nat) :=
  match lead? b.toNat with
  | none => .error 1
  | some lead =>
    match continued lead.more lead.bits lead.low lead.high 1 bytes with
    | .ok (code, read) => .ok (Char.ofNat code, read)
    | .error read => .error read

def replacement : Char := '\uFFFD'

/-- Reads bytes, `skip` of which belong to what has been read. -/
def decodeFrom (skip : Nat) : List UInt8 → List Char
  | [] => []
  | b :: bytes =>
    match skip with
    | skip + 1 => decodeFrom skip bytes
    | 0 =>
      match charAt b bytes with
      | .ok (c, read) => c :: decodeFrom (read - 1) bytes
      | .error read => replacement :: decodeFrom (read - 1) bytes

/-- The text that bytes stand for, with a replacement character for each stretch that is none. -/
def decodeLossy (bytes : List UInt8) : List Char := decodeFrom 0 bytes

def decodeStrictFrom (skip : Nat) : List UInt8 → Option (List Char)
  | [] => some []
  | b :: bytes =>
    match skip with
    | skip + 1 => decodeStrictFrom skip bytes
    | 0 =>
      match charAt b bytes with
      | .ok (c, read) => (decodeStrictFrom (read - 1) bytes).map (c :: ·)
      | .error _ => none

def decode? (bytes : List UInt8) : Option (List Char) := decodeStrictFrom 0 bytes

end EndpointAtlas.Text.Utf8
