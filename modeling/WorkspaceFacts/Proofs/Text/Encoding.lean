import WorkspaceFacts.Text.Utf8

/-!
# Encodings of characters

The strict reading of a byte string succeeds exactly on the encodings of texts
(`WorkspaceFacts.Utf8.decode_eq_ok_iff`). Between the bytes of a character and its scalar
value stands `WorkspaceFacts.Utf8.Sequence`, which says of a short byte string that it
passes the bounds of its leading byte, and what its bits amount to. The cut of a byte
string takes such a sequence off at its front, and the sequences are the encodings.
-/

namespace WorkspaceFacts

namespace Utf8

/-! ### Leading bytes -/

/-- The seven kinds of leading bytes, by their values. -/
theorem lead?_cases {b : UInt8} {lead : Lead} (h : lead? b = some lead) :
    (0xC2 ≤ b.toNat ∧ b.toNat ≤ 0xDF ∧ lead = ⟨b.toNat - 0xC0, 0x80, 0xBF, 0⟩) ∨
      (b.toNat = 0xE0 ∧ lead = ⟨0, 0xA0, 0xBF, 1⟩) ∨
      (b.toNat = 0xED ∧ lead = ⟨0x0D, 0x80, 0x9F, 1⟩) ∨
      (0xE1 ≤ b.toNat ∧ b.toNat ≤ 0xEF ∧ b.toNat ≠ 0xED ∧
        lead = ⟨b.toNat - 0xE0, 0x80, 0xBF, 1⟩) ∨
      (b.toNat = 0xF0 ∧ lead = ⟨0, 0x90, 0xBF, 2⟩) ∨
      (0xF1 ≤ b.toNat ∧ b.toNat ≤ 0xF3 ∧ lead = ⟨b.toNat - 0xF0, 0x80, 0xBF, 2⟩) ∨
      (b.toNat = 0xF4 ∧ lead = ⟨4, 0x80, 0x8F, 2⟩) := by
  simp only [lead?, Bool.and_eq_true, decide_eq_true_eq, beq_iff_eq, UInt8.le_iff_toNat_le,
    ← UInt8.toNat_inj] at h
  simp at h
  repeat' split at h
  all_goals simp_all

/-! ### Sequences -/

/-- A byte string that passes the bounds of its leading byte, and the number that its bits
amount to. -/
inductive Sequence : Bytes → Nat → Prop
  | one {b : UInt8} (h : b < 0x80) : Sequence [b] b.toNat
  | two {b c : UInt8} {lead : Lead} (h : lead? b = some lead) (hmore : lead.more = 0)
      (hc : (lead.low ≤ c && c ≤ lead.high) = true) : Sequence [b, c] (shiftIn lead.bits c)
  | three {b c d : UInt8} {lead : Lead} (h : lead? b = some lead) (hmore : lead.more = 1)
      (hc : (lead.low ≤ c && c ≤ lead.high) = true) (hd : isContinuation d = true) :
      Sequence [b, c, d] (shiftIn (shiftIn lead.bits c) d)
  | four {b c d e : UInt8} {lead : Lead} (h : lead? b = some lead) (hmore : lead.more = 2)
      (hc : (lead.low ≤ c && c ≤ lead.high) = true) (hd : isContinuation d = true)
      (he : isContinuation e = true) :
      Sequence [b, c, d, e] (shiftIn (shiftIn (shiftIn lead.bits c) d) e)

theorem isContinuation_iff {b : UInt8} :
    isContinuation b = true ↔ 0x80 ≤ b.toNat ∧ b.toNat ≤ 0xBF := by
  simp [isContinuation, UInt8.le_iff_toNat_le]

theorem second_iff {lead : Lead} {c : UInt8} : (lead.low ≤ c && c ≤ lead.high) = true ↔
    lead.low.toNat ≤ c.toNat ∧ c.toNat ≤ lead.high.toNat := by
  simp [UInt8.le_iff_toNat_le]

theorem isValidChar_iff {v : Nat} :
    v.isValidChar ↔ v < 0xD800 ∨ (0xDFFF < v ∧ v < 0x110000) := Iff.rfl

theorem val_ofNat {v : Nat} (h : v.isValidChar) : (Char.ofNat v).val.toNat = v := by
  unfold Char.ofNat
  rw [dif_pos h]
  rfl

/-- The bounds on the second byte, and the bits of the leading byte, by the number of
bytes. -/
theorem lead?_arith {b c : UInt8} {lead : Lead} (h : lead? b = some lead)
    (hc : (lead.low ≤ c && c ≤ lead.high) = true) :
    0x80 ≤ c.toNat ∧ c.toNat ≤ 0xBF ∧
      ((lead.more = 0 ∧ b.toNat = lead.bits + 0xC0 ∧ 2 ≤ lead.bits ∧ lead.bits ≤ 0x1F) ∨
      (lead.more = 1 ∧ b.toNat = lead.bits + 0xE0 ∧ lead.bits ≤ 0x0F ∧
        (lead.bits = 0 → 0xA0 ≤ c.toNat) ∧
        (lead.bits = 0x0D → c.toNat ≤ 0x9F)) ∨
      (lead.more = 2 ∧ b.toNat = lead.bits + 0xF0 ∧ lead.bits ≤ 0x04 ∧
        (lead.bits = 0 → 0x90 ≤ c.toNat) ∧
        (lead.bits = 4 → c.toNat ≤ 0x8F))) := by
  rw [second_iff] at hc
  rcases lead?_cases h with ⟨h1, h2, rfl⟩ | ⟨h1, rfl⟩ | ⟨h1, rfl⟩ | ⟨h1, h2, h3, rfl⟩ | ⟨h1, rfl⟩ |
    ⟨h1, h2, rfl⟩ | ⟨h1, rfl⟩ <;> simp at hc ⊢ <;> omega

theorem ofNat_eq_of_toNat {n : Nat} {b : UInt8} (h : n = b.toNat) : UInt8.ofNat n = b := by
  rw [h, UInt8.ofNat_toNat]

/-- Every sequence is the encoding of a character. -/
theorem utf8EncodeChar_of_sequence {s : Bytes} {v : Nat} (h : Sequence s v) :
    v.isValidChar ∧ String.utf8EncodeChar (Char.ofNat v) = s := by
  cases h with
  | @one b h =>
    have hb : b.toNat < 0x80 := UInt8.lt_iff_toNat_lt.1 h
    have valid : (b.toNat).isValidChar := Or.inl (by omega)
    refine ⟨valid, ?_⟩
    rw [String.utf8EncodeChar, val_ofNat valid, if_pos (by omega), UInt8.ofNat_toNat]
  | @two b c lead h hmore hc =>
    obtain ⟨hc1, hc2, hl⟩ := lead?_arith h hc
    -- From here on the value is a number with an equation, and all is arithmetic.
    have hv : shiftIn lead.bits c = lead.bits * 64 + (c.toNat - 0x80) := rfl
    generalize shiftIn lead.bits c = v at hv ⊢
    have valid : v.isValidChar := Or.inl (by omega)
    refine ⟨valid, ?_⟩
    rw [String.utf8EncodeChar, val_ofNat valid, if_neg (by omega), if_pos (by omega)]
    rw [ofNat_eq_of_toNat (b := b) (by omega), ofNat_eq_of_toNat (b := c) (by omega)]
  | @three b c d lead h hmore hc hd =>
    obtain ⟨hc1, hc2, hl⟩ := lead?_arith h hc
    obtain ⟨hd1, hd2⟩ := isContinuation_iff.1 hd
    have hv : shiftIn (shiftIn lead.bits c) d =
        (lead.bits * 64 + (c.toNat - 0x80)) * 64 + (d.toNat - 0x80) := rfl
    generalize shiftIn (shiftIn lead.bits c) d = v at hv ⊢
    have valid : v.isValidChar := isValidChar_iff.2 (by omega)
    refine ⟨valid, ?_⟩
    rw [String.utf8EncodeChar, val_ofNat valid, if_neg (by omega), if_neg (by omega),
      if_pos (by omega)]
    rw [ofNat_eq_of_toNat (b := b) (by omega), ofNat_eq_of_toNat (b := c) (by omega),
      ofNat_eq_of_toNat (b := d) (by omega)]
  | @four b c d e lead h hmore hc hd he =>
    obtain ⟨hc1, hc2, hl⟩ := lead?_arith h hc
    obtain ⟨hd1, hd2⟩ := isContinuation_iff.1 hd
    obtain ⟨he1, he2⟩ := isContinuation_iff.1 he
    have hv : shiftIn (shiftIn (shiftIn lead.bits c) d) e =
        ((lead.bits * 64 + (c.toNat - 0x80)) * 64 + (d.toNat - 0x80)) * 64 + (e.toNat - 0x80) :=
      rfl
    generalize shiftIn (shiftIn (shiftIn lead.bits c) d) e = v at hv ⊢
    have valid : v.isValidChar := isValidChar_iff.2 (by omega)
    refine ⟨valid, ?_⟩
    rw [String.utf8EncodeChar, val_ofNat valid, if_neg (by omega), if_neg (by omega),
      if_neg (by omega)]
    rw [ofNat_eq_of_toNat (b := b) (by omega), ofNat_eq_of_toNat (b := c) (by omega),
      ofNat_eq_of_toNat (b := d) (by omega), ofNat_eq_of_toNat (b := e) (by omega)]

/-- The bytes from `C2` to `F4` are leading bytes. -/
theorem exists_lead? {b : UInt8} (h : 0xC2 ≤ b.toNat) (h' : b.toNat ≤ 0xF4) :
    ∃ lead, lead? b = some lead := by
  simp only [lead?, Bool.and_eq_true, decide_eq_true_eq, beq_iff_eq, UInt8.le_iff_toNat_le,
    ← UInt8.toNat_inj]
  repeat' split
  all_goals simp at *
  all_goals omega

theorem second_of_lead {b c : UInt8} {lead : Lead} (h : lead? b = some lead)
    (hc : 0x80 ≤ c.toNat ∧ c.toNat ≤ 0xBF)
    (hE0 : b.toNat = 0xE0 → 0xA0 ≤ c.toNat) (hED : b.toNat = 0xED → c.toNat ≤ 0x9F)
    (hF0 : b.toNat = 0xF0 → 0x90 ≤ c.toNat) (hF4 : b.toNat = 0xF4 → c.toNat ≤ 0x8F) :
    (lead.low ≤ c && c ≤ lead.high) = true := by
  rw [second_iff]
  rcases lead?_cases h with ⟨h1, h2, rfl⟩ | ⟨h1, rfl⟩ | ⟨h1, rfl⟩ | ⟨h1, h2, h3, rfl⟩ | ⟨h1, rfl⟩ |
    ⟨h1, h2, rfl⟩ | ⟨h1, rfl⟩ <;> simp <;> omega

theorem toNat_ofNat_of_lt {n : Nat} (h : n < 256) : (UInt8.ofNat n).toNat = n := by
  simp; omega

theorem exists_byte {n : Nat} (h : n < 256) : ∃ b : UInt8, UInt8.ofNat n = b ∧ b.toNat = n :=
  ⟨_, rfl, toNat_ofNat_of_lt h⟩

/-- Every encoding of a character is a sequence. -/
theorem sequence_utf8EncodeChar (c : Char) : Sequence (String.utf8EncodeChar c) c.toNat := by
  have valid : c.toNat < 0xD800 ∨ (0xDFFF < c.toNat ∧ c.toNat < 0x110000) := c.valid
  unfold String.utf8EncodeChar
  rw [show c.val.toNat = c.toNat from rfl]
  generalize c.toNat = v at *
  dsimp only
  split
  · next h =>
    obtain ⟨b, hb, hbv⟩ := exists_byte (n := v) (by omega)
    rw [hb, ← hbv]
    exact .one (by rw [UInt8.lt_iff_toNat_lt, hbv]; simp; omega)
  split
  · next h1 h2 =>
    obtain ⟨b, hb, hbv⟩ := exists_byte (n := v / 64 % 32 + 192) (by omega)
    obtain ⟨c, hc, hcv⟩ := exists_byte (n := v % 64 + 128) (by omega)
    obtain ⟨lead, hl⟩ := exists_lead? (b := b) (by omega) (by omega)
    have second := second_of_lead hl (c := c) (by omega) (by omega) (by omega) (by omega) (by omega)
    have arith := lead?_arith hl second
    rw [hb, hc, show v = shiftIn lead.bits c by unfold shiftIn; omega]
    exact .two hl (by omega) second
  split
  · next h1 h2 h3 =>
    obtain ⟨b, hb, hbv⟩ := exists_byte (n := v / 4096 % 16 + 224) (by omega)
    obtain ⟨c, hc, hcv⟩ := exists_byte (n := v / 64 % 64 + 128) (by omega)
    obtain ⟨d, hd, hdv⟩ := exists_byte (n := v % 64 + 128) (by omega)
    obtain ⟨lead, hl⟩ := exists_lead? (b := b) (by omega) (by omega)
    have second := second_of_lead hl (c := c) (by omega) (by omega) (by omega) (by omega) (by omega)
    have arith := lead?_arith hl second
    rw [hb, hc, hd, show v = shiftIn (shiftIn lead.bits c) d by unfold shiftIn; omega]
    exact .three hl (by omega) second (isContinuation_iff.2 (by omega))
  · next h1 h2 h3 =>
    obtain ⟨b, hb, hbv⟩ := exists_byte (n := v / 262144 % 8 + 240) (by omega)
    obtain ⟨c, hc, hcv⟩ := exists_byte (n := v / 4096 % 64 + 128) (by omega)
    obtain ⟨d, hd, hdv⟩ := exists_byte (n := v / 64 % 64 + 128) (by omega)
    obtain ⟨e, he, hev⟩ := exists_byte (n := v % 64 + 128) (by omega)
    obtain ⟨lead, hl⟩ := exists_lead? (b := b) (by omega) (by omega)
    have second := second_of_lead hl (c := c) (by omega) (by omega) (by omega) (by omega) (by omega)
    have arith := lead?_arith hl second
    rw [hb, hc, hd, he,
      show v = shiftIn (shiftIn (shiftIn lead.bits c) d) e by unfold shiftIn; omega]
    exact .four hl (by omega) second (isContinuation_iff.2 (by omega))
      (isContinuation_iff.2 (by omega))

theorem not_lt_of_lead? {b : UInt8} {lead : Lead} (h : lead? b = some lead) : ¬b < 0x80 := by
  rw [UInt8.lt_iff_toNat_lt]
  have := lead?_cases h
  simp
  omega

/-- The cut takes a sequence off at the front. -/
theorem pieces_append {s : Bytes} {v : Nat} (h : Sequence s v) (rest : Bytes) :
    pieces (s ++ rest) = .scalar (Char.ofNat v) :: pieces rest := by
  cases h with
  | one h => simp [pieces, h]
  | two h hmore hc => simp [pieces, not_lt_of_lead? h, h, hmore, hc]
  | three h hmore hc hd => simp [pieces, not_lt_of_lead? h, h, hmore, hc, hd]
  | four h hmore hc hd he => simp [pieces, not_lt_of_lead? h, h, hmore, hc, hd, he]

/-- What stands behind a first piece that is a character. -/
theorem exists_sequence {bytes : Bytes} {c : Char} {ps : List Piece}
    (h : pieces bytes = .scalar c :: ps) :
    ∃ s v rest, Sequence s v ∧ bytes = s ++ rest ∧ c = Char.ofNat v ∧ ps = pieces rest := by
  unfold pieces at h
  repeat' split at h
  all_goals simp only [List.cons.injEq, Piece.scalar.injEq, reduceCtorEq, false_and] at h
  -- Four of the cases start with a character, one for each length.
  · next b rest hb => exact ⟨[b], _, rest, .one hb, rfl, h.1.symm, h.2.symm⟩
  · next b _ _ lead hl _ c rest hc h0 =>
    exact ⟨[b, c], _, rest, .two hl (by simpa using h0) (by simpa using hc), rfl, h.1.symm,
      h.2.symm⟩
  · next b _ _ lead hl _ c hc _ _ d rest hd h1 =>
    exact ⟨[b, c, d], _, rest, .three hl (by simpa using h1) (by simpa using hc)
      (by simpa using hd), rfl, h.1.symm, h.2.symm⟩
  · next b _ _ lead hl _ c hc h0 _ d hd h1 _ e rest he =>
    simp only [Bool.not_eq_true, Bool.not_eq_false', beq_eq_false_iff_ne] at hc h0 hd h1 he
    have second : (lead.low ≤ c && c ≤ lead.high) = true := hc
    have arith := lead?_arith hl second
    exact ⟨[b, c, d, e], _, rest, .four hl (by omega) second hd he, rfl, h.1.symm, h.2.symm⟩

/-! ### The strict reading -/

theorem pieces_flatMap (cs : List Char) :
    pieces (cs.flatMap String.utf8EncodeChar) = cs.map Piece.scalar := by
  induction cs with
  | nil => rfl
  | cons c cs ih =>
    rw [List.flatMap_cons, pieces_append (sequence_utf8EncodeChar c), ih, Char.ofNat_toNat]
    rfl

theorem eq_flatMap_of_pieces {cs : List Char} {bytes : Bytes}
    (h : pieces bytes = cs.map Piece.scalar) : bytes = cs.flatMap String.utf8EncodeChar := by
  induction cs generalizing bytes with
  | nil =>
    unfold pieces at h
    repeat' split at h
    all_goals simp at h
    rfl
  | cons c cs ih =>
    obtain ⟨s, v, rest, hs, rfl, rfl, hps⟩ := exists_sequence h
    rw [List.flatMap_cons, (utf8EncodeChar_of_sequence hs).2, ← ih hps.symm]

theorem scalars_map (index : Nat) (cs : List Char) :
    scalars index (cs.map Piece.scalar) = .ok cs := by
  induction cs generalizing index with
  | nil => rfl
  | cons c cs ih => simp only [List.map_cons, scalars, ih]

theorem eq_map_of_scalars {index : Nat} {ps : List Piece} {cs : List Char}
    (h : scalars index ps = .ok cs) : ps = cs.map Piece.scalar := by
  induction ps generalizing index cs with
  | nil =>
    cases h
    rfl
  | cons p ps ih =>
    cases p with
    | scalar c =>
      simp only [scalars] at h
      split at h
      · next cs' hs =>
        cases h
        rw [List.map_cons, ← ih hs]
      · cases h
    | malformed n => cases h
    | unfinished n => cases h

/-- **The strict reading succeeds exactly on encodings**, and undoes them. -/
theorem decode_eq_ok_iff {bytes : Bytes} {cs : List Char} :
    decode bytes = .ok cs ↔ bytes = cs.flatMap String.utf8EncodeChar := by
  constructor
  · intro h
    exact eq_flatMap_of_pieces (eq_map_of_scalars h)
  · rintro rfl
    rw [decode, pieces_flatMap, scalars_map]

theorem decode?_eq_some_iff {bytes : Bytes} {text : String} :
    decode? bytes = some text ↔ bytes = encode text := by
  rw [encode, ← decode_eq_ok_iff, decode?]
  constructor
  · intro h
    split at h
    · next cs hcs =>
      rw [hcs, ← Option.some.inj h, String.toList_ofList]
    · cases h
  · intro h
    simp only [h, String.ofList_toList]

/-! ### Encodings of texts -/

theorem decode?_encode (text : String) : decode? (encode text) = some text :=
  decode?_eq_some_iff.2 rfl

/-- Different texts have different encodings. -/
theorem encode_injective : Function.Injective encode := by
  intro text text' h
  have hd := decode?_encode text
  rw [h, decode?_encode] at hd
  exact (Option.some.inj hd).symm

theorem encode_append (text text' : String) :
    encode (text ++ text') = encode text ++ encode text' := by
  rw [encode, String.toList_append, List.flatMap_append]
  rfl

/-- A text is as long in bytes as its encoding. -/
theorem length_encode (text : String) : (encode text).length = text.utf8ByteSize := by
  obtain ⟨cs, rfl⟩ : ∃ cs, text = String.ofList cs := ⟨_, String.ofList_toList.symm⟩
  rw [← String.size_toByteArray, String.toByteArray_ofList, List.utf8Encode,
    List.size_toByteArray, encode, String.toList_ofList]

theorem encode_intercalate (separator : String) (texts : List String) :
    encode (separator.intercalate texts) = (encode separator).intercalate (texts.map encode) := by
  induction texts with
  | nil => rfl
  | cons text texts ih =>
    cases texts with
    | nil => simp
    | cons next texts =>
      rw [String.intercalate_cons_cons, encode_append, encode_append, ih]
      simp only [List.map_cons, List.intercalate_cons_cons]

/-- A byte below `80` in an encoding is the character of that number. -/
theorem toNat_eq_of_mem_utf8EncodeChar {c : Char} {b : UInt8}
    (h : b ∈ String.utf8EncodeChar c) (hb : b < 0x80) : b.toNat = c.toNat := by
  -- Leading bytes and continuation bytes are all above.
  have lead_ge : ∀ {b lead}, lead? b = some lead → 0x80 ≤ b.toNat := by
    intro b lead hl
    have hlt := not_lt_of_lead? hl
    rw [UInt8.lt_iff_toNat_lt] at hlt
    exact Nat.le_of_not_lt hlt
  rw [UInt8.lt_iff_toNat_lt] at hb
  have hs := sequence_utf8EncodeChar c
  generalize String.utf8EncodeChar c = s at h hs
  generalize c.toNat = v at hs ⊢
  have above : ∀ {d : UInt8}, b = d → 0x80 ≤ d.toNat → b.toNat = v := by
    rintro d rfl hd
    exact absurd hb (Nat.not_lt.2 hd)
  cases hs with
  | one h' => rw [List.mem_singleton.1 h]
  | two hl hmore hc =>
    simp only [List.mem_cons, List.not_mem_nil, or_false] at h
    rcases h with h | h
    · exact above h (lead_ge hl)
    · exact above h (lead?_arith hl hc).1
  | three hl hmore hc hd =>
    simp only [List.mem_cons, List.not_mem_nil, or_false] at h
    rcases h with h | h | h
    · exact above h (lead_ge hl)
    · exact above h (lead?_arith hl hc).1
    · exact above h (isContinuation_iff.1 hd).1
  | four hl hmore hc hd he =>
    simp only [List.mem_cons, List.not_mem_nil, or_false] at h
    rcases h with h | h | h | h
    · exact above h (lead_ge hl)
    · exact above h (lead?_arith hl hc).1
    · exact above h (isContinuation_iff.1 hd).1
    · exact above h (isContinuation_iff.1 he).1

/-- The byte of a character below `80` stands in the encoding of that character only. -/
theorem eq_of_mem_utf8EncodeChar {c d : Char} (hc : c.toNat < 0x80)
    (h : c.toUInt8 ∈ String.utf8EncodeChar d) : c = d := by
  have hb : c.toUInt8.toNat = c.toNat := Nat.mod_eq_of_lt (Nat.lt_trans hc (by decide))
  have hv := toNat_eq_of_mem_utf8EncodeChar h (by rw [UInt8.lt_iff_toNat_lt, hb]; exact hc)
  exact Char.toNat_inj.1 (hb.symm.trans hv)

/-- A byte below `80` stands in an encoding only where its character stands in the text. -/
theorem not_mem_encode {text : String} {c : Char} (hc : c.toNat < 0x80) (h : c ∉ text.toList) :
    c.toUInt8 ∉ encode text := by
  intro hm
  obtain ⟨d, hd, hm⟩ := List.mem_flatMap.1 hm
  obtain rfl := eq_of_mem_utf8EncodeChar hc hm
  exact h hd

end Utf8

end WorkspaceFacts
