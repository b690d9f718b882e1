import EndpointAtlas.Text.Utf8
import Mathlib.Tactic.SplitIfs

/-!
# Texts survive as bytes

The bytes of a character announce how many they are and leave room for exactly its code, so what is
read off the bytes of a text is the text.
-/

namespace EndpointAtlas.Text.Utf8

theorem toNat_toUInt8 {n : Nat} (h : n < 256) : n.toUInt8.toNat = n :=
  Nat.mod_eq_of_lt h

theorem toNat_range (c : Char) : c.toNat < 0xD800 ∨ 0xDFFF < c.toNat ∧ c.toNat < 0x110000 :=
  c.valid

/-! ### First bytes -/

theorem lead?_one {n : Nat} (h : n < 0x80) : lead? n = some ⟨0, n, 0x80, 0xBF⟩ := by
  rw [lead?, if_pos h]

theorem lead?_two {n : Nat} (hlow : 0x80 ≤ n) (hhigh : n < 0x800) :
    lead? (0xC0 + n / 0x40) = some ⟨1, n / 0x40, 0x80, 0xBF⟩ := by
  rw [lead?, if_neg (by omega), if_neg (by omega), if_pos (by omega)]
  simp

/-- The byte after the first leaves out longer spellings of smaller codes and the surrogates. -/
theorem lead?_three {n : Nat} (hlow : 0x800 ≤ n) (hhigh : n < 0x10000)
    (hplain : n < 0xD800 ∨ 0xDFFF < n) :
    ∃ low high, lead? (0xE0 + n / 0x1000) = some ⟨2, n / 0x1000, low, high⟩ ∧
      low ≤ 0x80 + n / 0x40 % 0x40 ∧ 0x80 + n / 0x40 % 0x40 ≤ high := by
  by_cases hfirst : n / 0x1000 = 0
  · exact ⟨0xA0, 0xBF, by rw [hfirst]; rfl, by omega, by omega⟩
  by_cases hsurrogate : n / 0x1000 = 0xD
  · exact ⟨0x80, 0x9F, by rw [hsurrogate]; rfl, by omega, by omega⟩
  refine ⟨0x80, 0xBF, ?_, by omega, by omega⟩
  have hE0 : ((0xE0 + n / 0x1000 : Nat) == 0xE0) = false := beq_false_of_ne (by omega)
  have hED : ((0xE0 + n / 0x1000 : Nat) == 0xED) = false := beq_false_of_ne (by omega)
  rw [lead?, if_neg (by omega), if_neg (by omega), if_neg (by omega), hE0, hED]
  simp only [Bool.false_eq_true, if_false]
  rw [if_pos (by omega), Nat.add_sub_cancel_left]

/-- The byte after the first leaves out longer spellings of smaller codes and all above U+10FFFF. -/
theorem lead?_four {n : Nat} (hlow : 0x10000 ≤ n) (hhigh : n < 0x110000) :
    ∃ low high, lead? (0xF0 + n / 0x40000) = some ⟨3, n / 0x40000, low, high⟩ ∧
      low ≤ 0x80 + n / 0x1000 % 0x40 ∧ 0x80 + n / 0x1000 % 0x40 ≤ high := by
  by_cases hfirst : n / 0x40000 = 0
  · exact ⟨0x90, 0xBF, by rw [hfirst]; rfl, by omega, by omega⟩
  by_cases hlast : n / 0x40000 = 4
  · exact ⟨0x80, 0x8F, by rw [hlast]; rfl, by omega, by omega⟩
  refine ⟨0x80, 0xBF, ?_, by omega, by omega⟩
  have hE0 : ((0xF0 + n / 0x40000 : Nat) == 0xE0) = false := beq_false_of_ne (by omega)
  have hED : ((0xF0 + n / 0x40000 : Nat) == 0xED) = false := beq_false_of_ne (by omega)
  have hF0 : ((0xF0 + n / 0x40000 : Nat) == 0xF0) = false := beq_false_of_ne (by omega)
  rw [lead?, if_neg (by omega), if_neg (by omega), if_neg (by omega), hE0, hED, hF0]
  simp only [Bool.false_eq_true, if_false]
  rw [if_neg (by omega), if_pos (by omega), Nat.add_sub_cancel_left]

/-! ### Further bytes -/

theorem continued_zero (bits low high read : Nat) (bytes : List UInt8) :
    continued 0 bits low high read bytes = .ok (bits, read) := by
  rw [continued]

theorem continued_succ {more bits low high read k : Nat} {bytes : List UInt8} (hk : k < 0x40)
    (hlow : low ≤ 0x80 + k) (hhigh : 0x80 + k ≤ high) :
    continued (more + 1) bits low high read ((0x80 + k).toUInt8 :: bytes) =
      continued more (bits * 0x40 + k) 0x80 0xBF (read + 1) bytes := by
  have hbyte : (0x80 + k).toUInt8.toNat = 0x80 + k := toNat_toUInt8 (by omega)
  rw [continued, hbyte, if_pos (by simp [hlow, hhigh]), Nat.add_sub_cancel_left]

theorem charAt_eq {b : UInt8} {bytes : List UInt8} {lead : Lead} {code read : Nat}
    (hlead : lead? b.toNat = some lead)
    (hcode : continued lead.more lead.bits lead.low lead.high 1 bytes = .ok (code, read)) :
    charAt b bytes = .ok (Char.ofNat code, read) := by
  rw [charAt, hlead]
  simp only [hcode]

/-- A character is read off its own bytes, whatever comes after them. -/
theorem charAt_encodeChar (c : Char) :
    ∃ b bytes, encodeChar c = b :: bytes ∧
      ∀ rest, charAt b (bytes ++ rest) = .ok (c, bytes.length + 1) := by
  have hrange := toNat_range c
  have hchar : Char.ofNat c.toNat = c := Char.ofNat_toNat c
  rw [encodeChar]
  generalize c.toNat = n at hrange hchar
  split_ifs with hone htwo hthree
  · refine ⟨_, _, rfl, fun rest => ?_⟩
    have hlead := lead?_one hone
    rw [← toNat_toUInt8 (by omega : n < 256)] at hlead
    rw [← hchar, charAt_eq hlead (continued_zero ..), toNat_toUInt8 (by omega)]
    rfl
  · refine ⟨_, _, rfl, fun rest => ?_⟩
    have hlead := lead?_two (by omega) htwo
    rw [← toNat_toUInt8 (by omega : 0xC0 + n / 0x40 < 256)] at hlead
    have hcode : continued 1 (n / 0x40) 0x80 0xBF 1 ((0x80 + n % 0x40).toUInt8 :: rest) =
        .ok (n, 2) := by
      rw [continued_succ (by omega) (by omega) (by omega), continued_zero]
      congr 2
      omega
    rw [← hchar]
    exact charAt_eq hlead hcode
  · refine ⟨_, _, rfl, fun rest => ?_⟩
    obtain ⟨low, high, hlead, hlow, hhigh⟩ := lead?_three (by omega) hthree (by omega)
    rw [← toNat_toUInt8 (by omega : 0xE0 + n / 0x1000 < 256)] at hlead
    have hcode : continued 2 (n / 0x1000) low high 1
        ((0x80 + n / 0x40 % 0x40).toUInt8 :: (0x80 + n % 0x40).toUInt8 :: rest) = .ok (n, 3) := by
      rw [continued_succ (by omega) hlow hhigh, continued_succ (by omega) (by omega) (by omega),
        continued_zero]
      congr 2
      omega
    rw [← hchar]
    exact charAt_eq hlead hcode
  · refine ⟨_, _, rfl, fun rest => ?_⟩
    obtain ⟨low, high, hlead, hlow, hhigh⟩ := lead?_four (by omega : 0x10000 ≤ n) (by omega)
    rw [← toNat_toUInt8 (by omega : 0xF0 + n / 0x40000 < 256)] at hlead
    have hcode : continued 3 (n / 0x40000) low high 1
        ((0x80 + n / 0x1000 % 0x40).toUInt8 :: (0x80 + n / 0x40 % 0x40).toUInt8 ::
          (0x80 + n % 0x40).toUInt8 :: rest) = .ok (n, 4) := by
      rw [continued_succ (by omega) hlow hhigh, continued_succ (by omega) (by omega) (by omega),
        continued_succ (by omega) (by omega) (by omega), continued_zero]
      congr 2
      omega
    rw [← hchar]
    exact charAt_eq hlead hcode

/-! ### Whole texts -/

theorem decodeStrictFrom_append (bytes rest : List UInt8) :
    decodeStrictFrom bytes.length (bytes ++ rest) = decodeStrictFrom 0 rest := by
  induction bytes with
  | nil => rfl
  | cons b bytes ih => exact ih

theorem decode?_encode (cs : List Char) : decode? (encode cs) = some cs := by
  rw [decode?]
  induction cs with
  | nil => rfl
  | cons c cs ih =>
      obtain ⟨b, bytes, hbytes, hchar⟩ := charAt_encodeChar c
      have hencode : encode (c :: cs) = b :: (bytes ++ encode cs) := by
        rw [encode, List.flatMap_cons, hbytes]
        rfl
      rw [hencode, decodeStrictFrom]
      simp only [hchar, Nat.add_sub_cancel]
      rw [decodeStrictFrom_append, ih]
      rfl

end EndpointAtlas.Text.Utf8
