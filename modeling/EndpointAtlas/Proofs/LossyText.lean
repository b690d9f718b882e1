import EndpointAtlas.Proofs.Leniency
import EndpointAtlas.Proofs.Utf8
import Mathlib.Data.List.Infix

/-!
# Bytes that are read as text

Any bytes can be read as text in exactly one way: where a character stands it is read, and where none
does, the longest stretch that could still have become one is replaced. So a source file is read as the
text that was written to it, and no file is without a text.
-/

namespace EndpointAtlas

namespace Text.Utf8

variable {b : UInt8} {bytes part rest tail : List UInt8} {c : Char} {cs : List Char} {lead : Lead}
  {more bits low high read n : Nat}

/-! ### How characters are written -/

theorem encodeChar_eq (c : Char) : encodeChar c = String.utf8EncodeChar c := by
  have hrange := toNat_range c
  have hval : c.val.toNat = c.toNat := rfl
  rw [encodeChar, String.utf8EncodeChar, hval]
  generalize c.toNat = n at hrange
  by_cases hone : n < 0x80
  · rw [if_pos hone, if_pos (by omega)]
  by_cases htwo : n < 0x800
  · have hfirst : 0xC0 + n / 0x40 = n / 64 % 32 + 192 := by omega
    rw [if_neg hone, if_pos htwo, if_neg (by omega), if_pos (by omega), hfirst, Nat.add_comm 0x80]
  by_cases hthree : n < 0x10000
  · have hfirst : 0xE0 + n / 0x1000 = n / 4096 % 16 + 224 := by omega
    rw [if_neg hone, if_neg htwo, if_pos hthree, if_neg (by omega), if_neg (by omega),
      if_pos (by omega), hfirst, Nat.add_comm 0x80, Nat.add_comm 0x80]
  · have hfirst : 0xF0 + n / 0x40000 = n / 262144 % 8 + 240 := by omega
    rw [if_neg hone, if_neg htwo, if_neg hthree, if_neg (by omega), if_neg (by omega),
      if_neg (by omega), hfirst, Nat.add_comm 0x80, Nat.add_comm 0x80, Nat.add_comm 0x80]

theorem encode_toList (text : String) : encode text.toList = text.toUTF8.data.toList := by
  have hbytes : text.toUTF8 = text.toList.utf8Encode := by
    rw [← String.toByteArray_ofList, String.ofList_toList, String.toUTF8_eq_toByteArray]
  rw [hbytes, List.utf8Encode, encode, funext encodeChar_eq, List.data_toByteArray]

theorem exists_char (h : n < 0xD800 ∨ 0xDFFF < n ∧ n < 0x110000) : ∃ c : Char, c.toNat = n :=
  ⟨Char.ofNatAux n h, rfl⟩

/-! ### Further bytes -/

/-- Whether bytes can come after the first of a character that announces `more` of them, the next one
between `low` and `high`. -/
def Fits : Nat → Nat → Nat → List UInt8 → Prop
  | _, _, _, [] => True
  | 0, _, _, _ :: _ => False
  | more + 1, low, high, b :: bytes => low ≤ b.toNat ∧ b.toNat ≤ high ∧ Fits more 0x80 0xBF bytes

theorem fits_nil : Fits more low high [] := by
  cases more <;> exact trivial

theorem Fits.length_le (h : Fits more low high part) : part.length ≤ more := by
  induction part generalizing more low high with
  | nil => exact Nat.zero_le _
  | cons b part ih =>
      cases more with
      | zero => exact h.elim
      | succ more => exact Nat.succ_le_succ (ih h.2.2)

theorem Fits.of_append (h : Fits more low high (part ++ rest)) : Fits more low high part := by
  induction part generalizing more low high with
  | nil => exact fits_nil
  | cons b part ih =>
      cases more with
      | zero => exact h.elim
      | succ more => exact ⟨h.1, h.2.1, ih h.2.2⟩

/-- Bytes that fit can be filled up to all that are announced. -/
theorem Fits.exists_full (h : Fits more low high part) (hrange : low ≤ high) (hhigh : high ≤ 0xBF) :
    ∃ full, part <+: full ∧ full.length = more ∧ Fits more low high full := by
  induction more generalizing low high part with
  | zero => exact ⟨part, List.prefix_refl _, Nat.le_zero.1 h.length_le, h⟩
  | succ more ih =>
      cases part with
      | nil =>
          have hnil : Fits more 0x80 0xBF [] := fits_nil
          obtain ⟨full, -, hlength, hfull⟩ := ih hnil (by decide) (by decide)
          have hlow : low.toUInt8.toNat = low := toNat_toUInt8 (by omega)
          exact ⟨low.toUInt8 :: full, List.nil_prefix, by rw [List.length_cons, hlength],
            hlow.ge, by rw [hlow]; exact hrange, hfull⟩
      | cons b part =>
          obtain ⟨full, hstarts, hlength, hfull⟩ := ih h.2.2 (by decide) (by decide)
          exact ⟨b :: full, List.cons_prefix_cons.2 ⟨rfl, hstarts⟩, by rw [List.length_cons, hlength],
            h.1, h.2.1, hfull⟩

/-- Either all announced bytes are there, or as many are read as fit. -/
theorem continued_cases (more bits low high read : Nat) (bytes : List UInt8) :
    ∃ part rest, bytes = part ++ rest ∧ Fits more low high part ∧
      ((part.length = more ∧
          ∃ code, continued more bits low high read bytes = .ok (code, read + part.length)) ∨
        (part.length < more ∧ (∀ b ∈ rest.head?, ¬ Fits more low high (part ++ [b])) ∧
          continued more bits low high read bytes = .error (read + part.length))) := by
  induction more generalizing bits low high read bytes with
  | zero => exact ⟨[], bytes, rfl, trivial, Or.inl ⟨rfl, bits, continued_zero ..⟩⟩
  | succ more ih =>
      cases bytes with
      | nil => exact ⟨[], [], rfl, trivial, Or.inr ⟨Nat.succ_pos _, by simp, rfl⟩⟩
      | cons b bytes =>
          by_cases hb : low ≤ b.toNat ∧ b.toNat ≤ high
          · have hstep : continued (more + 1) bits low high read (b :: bytes) =
                continued more (bits * 0x40 + (b.toNat - 0x80)) 0x80 0xBF (read + 1) bytes := by
              rw [continued, if_pos (by simpa using hb)]
            obtain ⟨part, rest, rfl, hfits, hread⟩ :=
              ih (bits * 0x40 + (b.toNat - 0x80)) 0x80 0xBF (read + 1) bytes
            rw [Nat.add_assoc, Nat.add_comm 1] at hread
            refine ⟨b :: part, rest, rfl, ⟨hb.1, hb.2, hfits⟩, ?_⟩
            rw [hstep, List.length_cons]
            obtain ⟨hlength, hcode⟩ | ⟨hlength, hnext, hfault⟩ := hread
            · exact Or.inl ⟨by rw [hlength], hcode⟩
            · exact Or.inr ⟨Nat.succ_lt_succ hlength, fun d hd h => hnext d hd h.2.2, hfault⟩
          · refine ⟨[], b :: bytes, rfl, trivial, Or.inr ⟨Nat.succ_pos _, ?_, ?_⟩⟩
            · rintro d hd ⟨hlow, hhigh, -⟩
              cases hd
              exact hb ⟨hlow, hhigh⟩
            · rw [continued, if_neg (by simpa using hb)]
              rfl

/-! ### First bytes -/

/-- What a first byte announces, by how many bytes there are. -/
theorem lead?_cases (h : lead? n = some lead) :
    lead.low ≤ lead.high ∧ lead.high ≤ 0xBF ∧ 0x80 ≤ lead.low ∧
      (n < 0x80 ∧ lead.more = 0 ∨
        0xC2 ≤ n ∧ n < 0xE0 ∧ lead.more = 1 ∨
        0xE0 ≤ n ∧ n < 0xF0 ∧ lead.more = 2 ∧ (n = 0xE0 → 0xA0 ≤ lead.low) ∧
          (n = 0xED → lead.high ≤ 0x9F) ∨
        0xF0 ≤ n ∧ n < 0xF5 ∧ lead.more = 3 ∧ (n = 0xF0 → 0x90 ≤ lead.low) ∧
          (n = 0xF4 → lead.high ≤ 0x8F)) := by
  rw [lead?] at h
  simp only [beq_iff_eq] at h
  split_ifs at h <;> cases h <;> simp <;> omega

/-- The bytes of a character are all that its first byte announces. -/
theorem exists_lead_of_encodeChar (h : encodeChar c = b :: tail) :
    ∃ lead, lead? b.toNat = some lead ∧ tail.length = lead.more ∧
      Fits lead.more lead.low lead.high tail := by
  obtain ⟨b', bytes, hbytes, hchar⟩ := charAt_encodeChar c
  obtain ⟨rfl, rfl⟩ : b' = b ∧ bytes = tail := by simpa [hbytes] using h
  have hread := hchar []
  rw [List.append_nil, charAt] at hread
  cases hlead : lead? b'.toNat with
  | none => rw [hlead] at hread; cases hread
  | some lead =>
      rw [hlead] at hread
      obtain ⟨part, rest, rfl, hfits, ⟨hlength, code, hcode⟩ | ⟨-, -, hfault⟩⟩ :=
        continued_cases lead.more lead.bits lead.low lead.high 1 bytes
      · simp only [hcode, Except.ok.injEq, Prod.mk.injEq] at hread
        have hrest : rest = [] := by
          have hcount := hread.2
          rw [List.length_append] at hcount
          exact List.length_eq_zero_iff.1 (by omega)
        subst hrest
        rw [List.append_nil]
        exact ⟨lead, rfl, hlength, hfits⟩
      · simp only [hfault] at hread
        cases hread

/-- All the bytes that a first byte announces make up a character with it. -/
theorem exists_encodeChar (hlead : lead? b.toNat = some lead) (hlength : tail.length = lead.more)
    (hfits : Fits lead.more lead.low lead.high tail) : ∃ c, encodeChar c = b :: tail := by
  obtain ⟨-, hhigh, hlow, hb⟩ := lead?_cases hlead
  have hbyte {k : Nat} {x : UInt8} (h : k = x.toNat) : k.toUInt8 = x := h ▸ UInt8.ofNat_toNat
  obtain ⟨hb, hmore⟩ | ⟨hb, hb', hmore⟩ | ⟨hb, hb', hmore, hE0, hED⟩ | ⟨hb, hb', hmore, hF0, hF4⟩ := hb
  all_goals rw [hmore] at hlength hfits
  · obtain rfl := List.length_eq_zero_iff.1 hlength
    obtain ⟨c, hc⟩ := exists_char (n := b.toNat) (by omega)
    exact ⟨c, by rw [encodeChar, hc, if_pos hb, hbyte rfl]⟩
  · obtain ⟨x, rfl⟩ := List.length_eq_one_iff.1 hlength
    obtain ⟨hx, hx', -⟩ := hfits
    obtain ⟨n, hn⟩ : ∃ n, n = (b.toNat - 0xC0) * 0x40 + (x.toNat - 0x80) := ⟨_, rfl⟩
    obtain ⟨c, hc⟩ := exists_char (n := n) (by omega)
    refine ⟨c, ?_⟩
    rw [encodeChar, hc, if_neg (by omega), if_pos (by omega), hbyte (x := b) (by omega),
      hbyte (x := x) (by omega)]
  · obtain ⟨x, y, rfl⟩ := List.length_eq_two.1 hlength
    obtain ⟨hx, hx', hy, hy', -⟩ := hfits
    obtain ⟨n, hn⟩ : ∃ n, n = (b.toNat - 0xE0) * 0x1000 + (x.toNat - 0x80) * 0x40 +
      (y.toNat - 0x80) := ⟨_, rfl⟩
    obtain ⟨c, hc⟩ := exists_char (n := n) (by omega)
    refine ⟨c, ?_⟩
    rw [encodeChar, hc, if_neg (by omega), if_neg (by omega), if_pos (by omega),
      hbyte (x := b) (by omega), hbyte (x := x) (by omega), hbyte (x := y) (by omega)]
  · obtain ⟨x, y, z, rfl⟩ := List.length_eq_three.1 hlength
    obtain ⟨hx, hx', hy, hy', hz, hz', -⟩ := hfits
    obtain ⟨n, hn⟩ : ∃ n, n = (b.toNat - 0xF0) * 0x40000 + (x.toNat - 0x80) * 0x1000 +
      (y.toNat - 0x80) * 0x40 + (z.toNat - 0x80) := ⟨_, rfl⟩
    obtain ⟨c, hc⟩ := exists_char (n := n) (by omega)
    refine ⟨c, ?_⟩
    rw [encodeChar, hc, if_neg (by omega), if_neg (by omega), if_neg (by omega),
      hbyte (x := b) (by omega), hbyte (x := x) (by omega), hbyte (x := y) (by omega),
      hbyte (x := z) (by omega)]

/-! ### What is read and what is replaced -/

/-- Whether bytes could be the start of a character, or all of it. -/
def IsStart (part : List UInt8) : Prop := ∃ c, part <+: String.utf8EncodeChar c

/-- What is replaced where no character stands: as many bytes as could have become one, or a single byte
where not even this one could. -/
structure IsReplaced (part rest : List UInt8) : Prop where
  no_char : ∀ c, ¬ String.utf8EncodeChar c <+: part ++ rest
  start : part.length = 1 ∨ part ≠ [] ∧ IsStart part
  longest : ∀ longer, longer <+: part ++ rest → IsStart longer → longer.length ≤ part.length

/-- How bytes are read as text, one character or one replaced stretch after the other. -/
inductive Decodes : List UInt8 → List Char → Prop
  | nil : Decodes [] []
  | char (c : Char) {rest : List UInt8} {cs : List Char} :
      Decodes rest cs → Decodes (String.utf8EncodeChar c ++ rest) (c :: cs)
  | replaced {part rest : List UInt8} {cs : List Char} :
      IsReplaced part rest → Decodes rest cs → Decodes (part ++ rest) (replacement :: cs)

theorem isStart_cons_iff : IsStart (b :: tail) ↔
    ∃ lead, lead? b.toNat = some lead ∧ Fits lead.more lead.low lead.high tail := by
  constructor
  · rintro ⟨c, hc⟩
    rw [← encodeChar_eq] at hc
    obtain ⟨rest, hrest⟩ := hc
    obtain ⟨lead, hlead, -, hfits⟩ := exists_lead_of_encodeChar hrest.symm
    exact ⟨lead, hlead, hfits.of_append⟩
  · rintro ⟨lead, hlead, hfits⟩
    obtain ⟨hrange, hhigh, -⟩ := lead?_cases hlead
    obtain ⟨full, hstarts, hlength, hfull⟩ := hfits.exists_full hrange hhigh
    obtain ⟨c, hc⟩ := exists_encodeChar hlead hlength hfull
    exact ⟨c, by rw [← encodeChar_eq, hc]; exact List.cons_prefix_cons.2 ⟨rfl, hstarts⟩⟩

/-- Where the next byte does not fit nothing longer does. -/
theorem length_le_of_fits (hnext : ∀ b ∈ rest.head?, ¬ Fits more low high (part ++ [b]))
    (hstarts : tail <+: part ++ rest) (hfits : Fits more low high tail) :
    tail.length ≤ part.length := by
  by_contra hlonger
  obtain ⟨after, rfl⟩ : part <+: tail :=
    List.prefix_of_prefix_length_le (List.prefix_append _ _) hstarts (by omega)
  cases after with
  | nil => simp at hlonger
  | cons b after =>
      obtain ⟨more', hmore⟩ := hstarts
      rw [List.append_assoc, List.append_cancel_left_eq, List.cons_append] at hmore
      refine hnext b (by rw [← hmore]; rfl) ?_
      rw [List.append_cons] at hfits
      exact hfits.of_append

theorem IsStart.cases_of_prefix {longer : List UInt8} (h : IsStart longer)
    (hstarts : longer <+: b :: bytes) : longer = [] ∨ ∃ tail lead, longer = b :: tail ∧
      tail <+: bytes ∧ lead? b.toNat = some lead ∧ Fits lead.more lead.low lead.high tail := by
  cases longer with
  | nil => exact Or.inl rfl
  | cons d tail =>
      obtain ⟨rfl, htail⟩ := List.cons_prefix_cons.1 hstarts
      obtain ⟨lead, hlead, hfits⟩ := isStart_cons_iff.1 h
      exact Or.inr ⟨tail, lead, rfl, htail, hlead, hfits⟩

theorem isReplaced_of_lead?_eq_none (hlead : lead? b.toNat = none) : IsReplaced [b] bytes := by
  have hnone {longer : List UInt8} (hstart : IsStart longer) (hstarts : longer <+: b :: bytes) :
      longer = [] := by
    refine (hstart.cases_of_prefix hstarts).resolve_right ?_
    rintro ⟨_, _, -, -, hsome, -⟩
    rw [hlead] at hsome
    cases hsome
  refine ⟨fun c hc => ?_, Or.inl rfl, fun longer hstarts hstart => ?_⟩
  · exact String.utf8EncodeChar_ne_nil (hnone ⟨c, List.prefix_refl _⟩ hc)
  · rw [hnone hstart hstarts]
    exact Nat.zero_le _

theorem isReplaced_of_fits (hlead : lead? b.toNat = some lead)
    (hfits : Fits lead.more lead.low lead.high part) (hlength : part.length < lead.more)
    (hnext : ∀ d ∈ rest.head?, ¬ Fits lead.more lead.low lead.high (part ++ [d])) :
    IsReplaced (b :: part) rest := by
  have hlongest {longer : List UInt8} (hstart : IsStart longer)
      (hstarts : longer <+: b :: part ++ rest) : longer.length ≤ (b :: part).length := by
    obtain rfl | ⟨tail, lead', rfl, htail, hlead', hfits'⟩ := hstart.cases_of_prefix hstarts
    · exact Nat.zero_le _
    · obtain rfl : lead = lead' := Option.some.inj (hlead.symm.trans hlead')
      exact Nat.succ_le_succ (length_le_of_fits hnext htail hfits')
  refine ⟨fun c hc => ?_, Or.inr ⟨List.cons_ne_nil _ _, isStart_cons_iff.2 ⟨lead, hlead, hfits⟩⟩,
    fun longer hstarts hstart => hlongest hstart hstarts⟩
  -- All that the first byte announces would have to be there.
  have hshort := hlongest ⟨c, List.prefix_refl _⟩ hc
  obtain ⟨d, tail, hchar⟩ := List.exists_cons_of_ne_nil (String.utf8EncodeChar_ne_nil (c := c))
  rw [← encodeChar_eq] at hc hchar hshort
  rw [hchar] at hc hshort
  obtain ⟨rfl, -⟩ := List.cons_prefix_cons.1 hc
  obtain ⟨lead', hlead', hfull, -⟩ := exists_lead_of_encodeChar hchar
  obtain rfl : lead = lead' := Option.some.inj (hlead.symm.trans hlead')
  rw [List.length_cons, List.length_cons] at hshort
  omega

/-- At the start of bytes there is a character, or something to be replaced. -/
theorem charAt_cases (b : UInt8) (bytes : List UInt8) :
    (∃ c tail rest, String.utf8EncodeChar c = b :: tail ∧ bytes = tail ++ rest ∧
      charAt b bytes = .ok (c, tail.length + 1)) ∨
    ∃ part rest, bytes = part ++ rest ∧ IsReplaced (b :: part) rest ∧
      charAt b bytes = .error (part.length + 1) := by
  cases hlead : lead? b.toNat with
  | none =>
      exact Or.inr ⟨[], bytes, rfl, isReplaced_of_lead?_eq_none hlead, by rw [charAt, hlead]; rfl⟩
  | some lead =>
      obtain ⟨part, rest, rfl, hfits, ⟨hlength, -⟩ | ⟨hlength, hnext, hfault⟩⟩ :=
        continued_cases lead.more lead.bits lead.low lead.high 1 bytes
      · obtain ⟨c, hc⟩ := exists_encodeChar hlead hlength hfits
        obtain ⟨b', bytes, hbytes, hread⟩ := charAt_encodeChar c
        obtain ⟨rfl, rfl⟩ : b' = b ∧ bytes = part := by simpa [hbytes] using hc
        exact Or.inl ⟨c, bytes, rest, by rw [← encodeChar_eq, hc], rfl, hread rest⟩
      · refine Or.inr ⟨part, rest, rfl, isReplaced_of_fits hlead hfits hlength hnext, ?_⟩
        rw [charAt, hlead]
        simp only [hfault, Nat.add_comm 1]

/-! ### Whole files -/

theorem decodeFrom_append (part rest : List UInt8) :
    decodeFrom part.length (part ++ rest) = decodeLossy rest := by
  induction part with
  | nil => rfl
  | cons b part ih => exact ih

theorem decodeLossy_cons_char (hchar : charAt b (tail ++ rest) = .ok (c, tail.length + 1)) :
    decodeLossy (b :: (tail ++ rest)) = c :: decodeLossy rest := by
  rw [decodeLossy, decodeFrom]
  simp only [hchar, Nat.add_sub_cancel, decodeFrom_append]

theorem decodeLossy_cons_replaced (hfault : charAt b (tail ++ rest) = .error (tail.length + 1)) :
    decodeLossy (b :: (tail ++ rest)) = replacement :: decodeLossy rest := by
  rw [decodeLossy, decodeFrom]
  simp only [hfault, Nat.add_sub_cancel, decodeFrom_append]

theorem decodes_decodeLossy (bytes : List UInt8) : Decodes bytes (decodeLossy bytes) := by
  induction hlength : bytes.length using Nat.strong_induction_on generalizing bytes with
  | _ length ih =>
  cases bytes with
  | nil => exact .nil
  | cons b bytes =>
      have hshorter {tail rest : List UInt8} (h : bytes = tail ++ rest) :
          Decodes rest (decodeLossy rest) := by
        refine ih rest.length ?_ rest rfl
        rw [← hlength, h, List.length_cons, List.length_append]
        omega
      obtain ⟨c, tail, rest, hc, hbytes, hchar⟩ | ⟨part, rest, hbytes, hreplaced, hfault⟩ :=
        charAt_cases b bytes
      · have hdecodes := Decodes.char c (hshorter hbytes)
        subst hbytes
        rwa [decodeLossy_cons_char hchar, ← List.cons_append, ← hc]
      · have hdecodes := Decodes.replaced hreplaced (hshorter hbytes)
        subst hbytes
        rwa [decodeLossy_cons_replaced hfault]

/-- Two stretches replaced at the same place are equally long. -/
theorem IsReplaced.length_le {part' rest' : List UInt8} (h : IsReplaced part rest)
    (h' : IsReplaced part' rest') (hsame : part' ++ rest' = part ++ rest) :
    part'.length ≤ part.length := by
  obtain hsingle | ⟨-, hstart⟩ := h'.start
  · have hpositive : 0 < part.length := by
      obtain hone | ⟨hne, -⟩ := h.start
      · omega
      · exact List.length_pos_iff.2 hne
    omega
  · exact h.longest part' ⟨rest', hsame⟩ hstart

theorem Decodes.eq_decodeLossy (h : Decodes bytes cs) : cs = decodeLossy bytes := by
  induction h with
  | nil => rfl
  | @char c rest cs _ ih =>
      obtain ⟨b, tail, hbytes, hchar⟩ := charAt_encodeChar c
      rw [← encodeChar_eq, hbytes, List.cons_append, decodeLossy_cons_char (hchar rest), ← ih]
  | @replaced part rest cs hreplaced _ ih =>
      obtain ⟨b, part, rfl⟩ : ∃ b tail, part = b :: tail := by
        refine List.exists_cons_of_ne_nil ?_
        rintro rfl
        obtain hnone | ⟨hne, -⟩ := hreplaced.start
        · cases hnone
        · exact hne rfl
      obtain ⟨c, tail, rest', hc, hbytes, -⟩ | ⟨part', rest', hbytes, hreplaced', hfault⟩ :=
        charAt_cases b (part ++ rest)
      · refine absurd ⟨rest', ?_⟩ (hreplaced.no_char c)
        rw [hc, List.cons_append, List.cons_append, hbytes]
      · have hsame : b :: part' ++ rest' = b :: part ++ rest := congrArg (b :: ·) hbytes.symm
        have hle := hreplaced.length_le hreplaced' hsame
        have hge := hreplaced'.length_le hreplaced hsame.symm
        obtain ⟨rfl, rfl⟩ := List.append_inj hbytes (by simpa using Nat.le_antisymm hge hle)
        rw [ih]
        exact (decodeLossy_cons_replaced hfault).symm

/-- Any bytes are read as text in exactly one way. -/
theorem decodes_iff : Decodes bytes cs ↔ cs = decodeLossy bytes :=
  ⟨Decodes.eq_decodeLossy, fun h => h ▸ decodes_decodeLossy bytes⟩

theorem decodes_toUTF8 (text : String) : Decodes text.toUTF8.data.toList text.toList := by
  rw [← encode_toList]
  induction text.toList with
  | nil => exact .nil
  | cons c cs ih =>
      rw [encode, List.flatMap_cons, encodeChar_eq]
      exact .char c ih

end Text.Utf8

/-! ### Source files -/

namespace SourceUnit

open Text

/-- There is exactly one text for any bytes, and a source file that holds them is read as this text is.
A file that a text was written to is read as the text, and no file is unreadable. -/
theorem ofFile_reads_text :
    (∀ bytes, ∃! cs, Utf8.Decodes bytes cs) ∧
    ∀ (t : FileTree) (current : Place) (path : String) (lenient : Bool) (bytes : List UInt8),
      t.find current path = .ok (.file bytes) →
        (∀ cs, Utf8.Decodes bytes cs →
          ofFile t current lenient path = (ofText lenient cs).mapError .malformed) ∧
        (∀ text : String, bytes = text.toUTF8.data.toList →
          ofFile t current lenient path = (ofText lenient text.toList).mapError .malformed) ∧
        ∀ place fault, ofFile t current lenient path ≠ .error (.unreadable place fault) := by
  have hunique (bytes : List UInt8) : ∃! cs, Utf8.Decodes bytes cs :=
    ⟨_, Utf8.decodes_iff.2 rfl, fun _ => Utf8.decodes_iff.1⟩
  refine ⟨hunique, fun t current path lenient bytes hfind => ?_⟩
  have hread : t.read current path = .ok bytes := by rw [FileTree.read, hfind]
  have hfile (cs : List Char) (h : Utf8.Decodes bytes cs) :
      ofFile t current lenient path = (ofText lenient cs).mapError .malformed := by
    have hbytes : ofBytes lenient bytes = ofText lenient cs := by rw [ofBytes, Utf8.decodes_iff.1 h]
    cases hresult : ofText lenient cs with
    | ok u => exact ofFile_eq_ok_iff.2 ⟨bytes, hread, hbytes.trans hresult⟩
    | error e => exact ofFile_of_error hread (hbytes.trans hresult)
  refine ⟨hfile, fun text hbytes => hfile _ (hbytes ▸ Utf8.decodes_toUTF8 text), ?_⟩
  intro place fault
  obtain ⟨cs, hcs, -⟩ := hunique bytes
  rw [hfile cs hcs]
  cases ofText lenient cs <;> simp [Except.mapError]

/-- A file that a text was written to, and another with a cut character and a stray byte beside a letter. -/
theorem ofFile_reads_text_stray :
    let text := "é"
    let bytes : List UInt8 := [0xF0, 0x9F, 0x92, 0x41, 0x80]
    let cs := ['\uFFFD', 'A', '\uFFFD']
    let t := (FileTree.empty.plant ["A.java"] (.file text.toUTF8.data.toList)).plant ["B.java"] (.file bytes)
    t.find [] "A.java" = .ok (.file text.toUTF8.data.toList) ∧ t.find [] "B.java" = .ok (.file bytes) ∧
      Utf8.Decodes bytes cs ∧
      ofFile t [] false "A.java" = (ofText false text.toList).mapError .malformed ∧
      ofFile t [] false "B.java" = (ofText false cs).mapError .malformed ∧
      ∀ place fault, ofFile t [] false "B.java" ≠ .error (.unreadable place fault) := by
  intro text bytes cs t
  have hwritten : t.find [] "A.java" = .ok (.file text.toUTF8.data.toList) := by decide
  have hstray : t.find [] "B.java" = .ok (.file bytes) := by decide
  have hdecodes : Utf8.Decodes bytes cs := Utf8.decodes_iff.2 (by decide)
  obtain ⟨-, hreads, -⟩ := ofFile_reads_text.2 t [] "A.java" false _ hwritten
  obtain ⟨hreads', -, hreadable⟩ := ofFile_reads_text.2 t [] "B.java" false bytes hstray
  exact ⟨hwritten, hstray, hdecodes, hreads text rfl, hreads' cs hdecodes, hreadable⟩

end SourceUnit

end EndpointAtlas
