import WorkspaceFacts.Proofs.Text.Malformed

/-!
# What is shown of bytes

The lossy reading shows every character that stands in a byte string, and a replacement character
for every piece that spells none. Which pieces these are can be told from the encodings of the
characters alone (`WorkspaceFacts.Utf8.IsFaulty`), and there is one text only that bytes are shown
as (`WorkspaceFacts.Utf8.shownAs_iff`).

Bytes are not shown piece by piece: what two byte strings are shown as can change at the seam,
where the one can end inside an encoding and the other go on with it. The one thing to know is
that a byte below `80` goes on with no encoding
(`WorkspaceFacts.Utf8.eq_nil_of_begins_append`). In front of such a byte everything is cut as it
is cut where nothing follows, an unfinished piece becoming a malformed one of the same length
(`WorkspaceFacts.Utf8.IsFaulty.append`).
-/

namespace WorkspaceFacts

namespace Utf8

/-- **The bytes are at fault together** where the others stand behind them: no character stands
there, and they are as many as the longest beginning of an encoding that stands there has, or one
where there is none. -/
structure IsFaulty (piece rest : Bytes) : Prop where
  noCharacter : ∀ c, ¬String.utf8EncodeChar c <+: piece ++ rest
  longest : ∃ longest, IsGreatest {m | m ≤ (piece ++ rest).length ∧
    Begins ((piece ++ rest).take m)} longest ∧ piece.length = max 1 longest

/-- **The bytes are shown as the text**: characters as they are, and one replacement character for
all bytes that are at fault together. -/
inductive ShownAs : Bytes → List Char → Prop
  | nil : ShownAs [] []
  | character {c : Char} {rest : Bytes} {text : List Char} (h : ShownAs rest text) :
      ShownAs (String.utf8EncodeChar c ++ rest) (c :: text)
  | replaced {piece rest : Bytes} {text : List Char} (hp : IsFaulty piece rest)
      (h : ShownAs rest text) : ShownAs (piece ++ rest) ('\uFFFD' :: text)

variable {b : UInt8} {bytes piece rest front back : Bytes} {n : Nat} {ps : List Piece}
  {text : List Char}

/-! ### The cut behind a piece that spells nothing -/

/-- The cut goes on behind a malformed piece. -/
theorem pieces_drop_of_malformed (h : pieces bytes = .malformed n :: ps) :
    ps = pieces (bytes.drop n) := by
  unfold pieces at h
  repeat' split at h
  all_goals simp only [List.cons.injEq, Piece.malformed.injEq, reduceCtorEq, false_and] at h
  all_goals
    obtain ⟨rfl, rfl⟩ := h
    rfl

/-- Behind an unfinished piece there is nothing. -/
theorem eq_nil_of_unfinished (h : pieces bytes = .unfinished n :: ps) : ps = [] := by
  unfold pieces at h
  repeat' split at h
  all_goals simp only [List.cons.injEq, reduceCtorEq, false_and] at h
  all_goals exact h.2.symm

theorem not_prefix_of_pieces {p : Piece} (h : pieces bytes = p :: ps) (hp : ∀ c, p ≠ .scalar c)
    (c : Char) : ¬String.utf8EncodeChar c <+: bytes := by
  intro hc
  obtain ⟨ps', hps⟩ := pieces_of_prefix hc
  exact hp c (List.cons.inj (h.symm.trans hps)).1

/-- A first piece that is a character is its encoding. -/
theorem exists_of_scalar {c : Char} (h : pieces bytes = .scalar c :: ps) :
    ∃ rest, bytes = String.utf8EncodeChar c ++ rest ∧ ps = pieces rest := by
  obtain ⟨s, v, rest, hs, hbytes, rfl, hps⟩ := exists_sequence h
  exact ⟨rest, by rw [(utf8EncodeChar_of_sequence hs).2, hbytes], hps⟩

theorem isFaulty_of_malformed (h : pieces bytes = .malformed n :: ps) :
    IsFaulty (bytes.take n) (bytes.drop n) := by
  obtain ⟨longest, hn, -, hlt, hbegins, hstop⟩ := exists_longest_of_malformed h
  constructor <;> rw [List.take_append_drop]
  · exact not_prefix_of_pieces h nofun
  · refine ⟨longest, isGreatest_longest hlt.le hbegins hstop, ?_⟩
    rw [List.length_take]
    omega

theorem isFaulty_of_unfinished (h : pieces bytes = .unfinished n :: ps) : IsFaulty bytes [] := by
  obtain ⟨hne, -⟩ := unfinished_of_pieces h
  have hlen := List.length_pos_iff.2 hne
  constructor <;> rw [List.append_nil]
  · exact not_prefix_of_pieces h nofun
  · refine ⟨bytes.length, ⟨⟨Nat.le_refl _, ?_⟩, fun m hm => hm.1⟩, by omega⟩
    rw [List.take_length]
    exact begins_of_unfinished h

/-- **Bytes that are at fault together are one piece** of the cut. -/
theorem IsFaulty.exists_pieces (h : IsFaulty piece rest) :
    ∃ p : Piece, p.shown = '\uFFFD' ∧ pieces (piece ++ rest) = p :: pieces rest := by
  obtain ⟨hno, longest, hlongest, hlen⟩ := h
  cases hp : pieces (piece ++ rest) with
  | nil =>
    have hnil : piece ++ rest = [] := @eq_flatMap_of_pieces [] _ hp
    rw [(List.append_eq_nil_iff.1 hnil).1, List.length_nil] at hlen
    omega
  | cons p ps =>
    cases p with
    | scalar c =>
      obtain ⟨rest', hbytes, -⟩ := exists_of_scalar hp
      exact absurd (hbytes ▸ List.prefix_append _ _) (hno c)
    | malformed n =>
      obtain ⟨longest', hn, -, hlt, hbegins, hstop⟩ := exists_longest_of_malformed hp
      obtain rfl := hlongest.unique (isGreatest_longest hlt.le hbegins hstop)
      refine ⟨.malformed n, rfl, ?_⟩
      rw [pieces_drop_of_malformed hp, hn, ← hlen, List.drop_left]
    | unfinished n =>
      -- All bytes are the beginning of an encoding, so there are no others behind the piece.
      have hall : (piece ++ rest).length ≤ longest :=
        hlongest.2 ⟨Nat.le_refl _, by rw [List.take_length]; exact begins_of_unfinished hp⟩
      obtain rfl : rest = [] := by
        rw [← List.length_eq_zero_iff]
        have := hlongest.1.1
        rw [List.length_append] at *
        omega
      exact ⟨.unfinished n, rfl, by rw [eq_nil_of_unfinished hp]; rfl⟩

/-! ### The lossy reading -/

theorem shownAs_pieces (bytes : Bytes) : ShownAs bytes ((pieces bytes).map Piece.shown) := by
  -- By the number of bytes, as a piece can have more than one of them.
  induction hlen : bytes.length using Nat.strongRecOn generalizing bytes with
  | ind len ih =>
    subst hlen
    cases hp : pieces bytes with
    | nil =>
      obtain rfl : bytes = [] := @eq_flatMap_of_pieces [] _ hp
      exact .nil
    | cons p ps =>
      cases p with
      | scalar c =>
        obtain ⟨rest, rfl, rfl⟩ := exists_of_scalar hp
        have hlt : rest.length < (String.utf8EncodeChar c ++ rest).length := by
          have := List.length_pos_iff.2 (String.utf8EncodeChar_ne_nil (c := c))
          rw [List.length_append]
          omega
        exact .character (ih _ hlt rest rfl)
      | malformed n =>
        have hfaulty := isFaulty_of_malformed hp
        have hlt : (bytes.drop n).length < bytes.length := by
          obtain ⟨longest, -, hn⟩ := hfaulty.longest
          rw [List.length_take] at hn
          rw [List.length_drop]
          omega
        have h := ShownAs.replaced hfaulty (ih _ hlt _ rfl)
        rwa [List.take_append_drop, ← pieces_drop_of_malformed hp] at h
      | unfinished n =>
        obtain rfl := eq_nil_of_unfinished hp
        have h := ShownAs.replaced (isFaulty_of_unfinished hp) .nil
        rwa [List.append_nil] at h

/-- **The lossy reading shows bytes as they are to be shown**, and there is no other way. -/
theorem shownAs_iff : ShownAs bytes text ↔ (display bytes).toList = text := by
  rw [display, String.toList_ofList]
  constructor
  · intro h
    induction h with
    | nil => rfl
    | @character c rest text _ ih =>
      rw [pieces_append (sequence_utf8EncodeChar c), Char.ofNat_toNat, List.map_cons, ih]
      rfl
    | replaced hp _ ih =>
      obtain ⟨p, hshown, hpieces⟩ := hp.exists_pieces
      rw [hpieces, List.map_cons, hshown, ih]
  · rintro rfl
    exact shownAs_pieces bytes

theorem shownAs_display (bytes : Bytes) : ShownAs bytes (display bytes).toList :=
  shownAs_iff.2 rfl

@[simp] theorem display_nil : display [] = "" := rfl

theorem display_encode_append (text : String) (bytes : Bytes) :
    display (encode text ++ bytes) = text ++ display bytes := by
  rw [display, encode, pieces_flatMap_append, List.map_append, List.map_map, String.ofList_append]
  congr 1
  exact (congrArg String.ofList (List.map_id _)).trans String.ofList_toList

/-- **A text is shown as it is.** -/
theorem display_encode (text : String) : display (encode text) = text := by
  have h := display_encode_append text []
  rwa [List.append_nil, display_nil, String.append_empty] at h

/-! ### At a seam -/

/-- **A byte below `80` goes on with no encoding**: where it stands in one, it stands first. -/
theorem eq_nil_of_begins_append (h : Begins (front ++ b :: back)) (hb : b < 0x80) :
    front = [] := by
  obtain ⟨c, hc⟩ := h
  have hmem : b ∈ String.utf8EncodeChar c := hc.subset (by simp)
  have hval : b.toNat = c.toNat := toNat_eq_of_mem_utf8EncodeChar hmem hb
  have hone : c.utf8Size = 1 := by
    rw [UInt8.lt_iff_toNat_lt, hval] at hb
    exact Char.utf8Size_eq_one_iff.2 (UInt32.le_iff_toNat_le.2 (Nat.le_of_lt_succ hb))
  have hlen := hc.length_le
  rw [String.length_utf8EncodeChar, hone, List.length_append, List.length_cons] at hlen
  exact List.length_eq_zero_iff.1 (by omega)

theorem le_length_of_begins {m : Nat} (hb : b < 0x80) (hne : bytes ≠ [])
    (h : Begins ((bytes ++ b :: back).take m)) : m ≤ bytes.length := by
  by_contra hlt
  obtain ⟨k, hk⟩ := Nat.exists_eq_add_of_lt (Nat.lt_of_not_le hlt)
  rw [List.take_append, List.take_of_length_le (by omega),
    show m - bytes.length = k + 1 by omega, List.take_succ_cons] at h
  exact hne (eq_nil_of_begins_append h hb)

/-- **Bytes that are at fault together stay so** in front of a byte below `80`. -/
theorem IsFaulty.append (h : IsFaulty piece rest) (hb : b < 0x80) (back : Bytes) :
    IsFaulty piece (rest ++ b :: back) := by
  obtain ⟨hno, longest, ⟨⟨hle, hbegins⟩, hmax⟩, hlen⟩ := h
  have hne : piece ++ rest ≠ [] := by
    rw [← List.length_pos_iff, List.length_append]
    omega
  constructor <;> rw [← List.append_assoc]
  · intro c hc
    have hshort : (String.utf8EncodeChar c).length ≤ (piece ++ rest).length := by
      have hbegins : Begins ((piece ++ rest ++ b :: back).take
          (String.utf8EncodeChar c).length) := by
        rw [← List.prefix_iff_eq_take.1 hc]
        exact ⟨c, List.prefix_refl _⟩
      exact le_length_of_begins hb hne hbegins
    exact hno c (List.prefix_of_prefix_length_le hc (List.prefix_append _ _) hshort)
  · refine ⟨longest, ⟨⟨?_, ?_⟩, ?_⟩, hlen⟩
    · exact hle.trans (List.prefix_append _ _).length_le
    · rwa [List.take_append_of_le_length hle]
    · rintro m ⟨-, hm⟩
      have hshort := le_length_of_begins hb hne hm
      rw [List.take_append_of_le_length hshort] at hm
      exact hmax ⟨hshort, hm⟩

theorem ShownAs.append {text' : List Char} (h : ShownAs front text) (hb : b < 0x80)
    (h' : ShownAs (b :: back) text') : ShownAs (front ++ b :: back) (text ++ text') := by
  induction h with
  | nil => exact h'
  | character _ ih =>
    rw [List.append_assoc]
    exact .character ih
  | replaced hp _ ih =>
    rw [List.append_assoc]
    exact .replaced (hp.append hb back) ih

/-- **Bytes are shown one part after the other** if the first part is a text, or the second one does
not start with a byte that could go on with an encoding. -/
theorem display_append (h : IsText front ∨ ∀ b, back.head? = some b → b < 0x80) :
    display (front ++ back) = display front ++ display back := by
  rcases h with ⟨text, rfl⟩ | h
  · rw [display_encode_append, display_encode]
  · cases back with
    | nil => rw [List.append_nil, display_nil, String.append_empty]
    | cons b back =>
      have hshown := (shownAs_display front).append (h b rfl) (shownAs_display (b :: back))
      refine String.toList_inj.1 ?_
      rw [shownAs_iff.1 hshown, String.toList_append]

/-- Two parts of one encoding are shown as its character, but each of them as a replacement. -/
example : display ([0xE2, 0x82] ++ [0xAC]) = "€" ∧
    display [0xE2, 0x82] ++ display [0xAC] = "\uFFFD\uFFFD" := by
  decide +kernel

end Utf8

end WorkspaceFacts
