import Mathlib.Order.Bounds.Basic
import WorkspaceFacts.Proofs.Text.Encoding

/-!
# Where bytes stop to spell a text

The strict reading names the first place at which bytes stop to spell a text, and how much of
them is at fault there. Both can be told from the encodings of the characters alone
(`WorkspaceFacts.Utf8.Fault.IsFirst`): the bytes before the place are the longest beginning that
spells a text, and what is at fault is the longest beginning of an encoding that stands there, or
one byte where there is none.

What can stand behind a leading byte is the one thing to know. `WorkspaceFacts.Utf8.Lead.Admits`
says it for any number of bytes, so that it holds of a beginning of an encoding as well as of the
whole (`WorkspaceFacts.Utf8.begins_lead_iff`), and each of the ways in which the cut can fail is
an instance of it.
-/

namespace WorkspaceFacts

namespace Utf8

/-- Bytes that spell a text. -/
def IsText (bytes : Bytes) : Prop := ∃ text : String, bytes = encode text

/-- **Bytes with which the encoding of a character begins.** -/
def Begins (bytes : Bytes) : Prop := ∃ c : Char, bytes <+: String.utf8EncodeChar c

/-- Bytes with which the encoding of a character begins and does not end. There is one of them
at least. -/
def Unfinished (bytes : Bytes) : Prop :=
  bytes ≠ [] ∧ ∃ c : Char, bytes <+: String.utf8EncodeChar c ∧ bytes ≠ String.utf8EncodeChar c

/-- **The first fault of a byte string.** Its index is the length of the longest beginning that
spells a text. It has no length if all bytes from there on begin an encoding and do not end it;
otherwise its length is that of the longest beginning of an encoding that stands there, and one
at least. -/
structure Fault.IsFirst (fault : Fault) (bytes : Bytes) : Prop where
  index : IsGreatest {n | n ≤ bytes.length ∧ IsText (bytes.take n)} fault.index
  unfinished : fault.length = none ↔ Unfinished (bytes.drop fault.index)
  length : ∀ n, fault.length = some n → 1 ≤ n ∧ n ≤ 3 ∧ ∃ longest,
    IsGreatest {m | m ≤ (bytes.drop fault.index).length ∧
      Begins ((bytes.drop fault.index).take m)} longest ∧ n = max 1 longest

variable {b : UInt8} {lead : Lead} {bytes rest : Bytes} {n : Nat} {ps : List Piece}

/-! ### Beginnings of encodings -/

/-- What may stand behind a leading byte: a byte within its bounds, and continuation bytes. -/
def Lead.Admits (lead : Lead) : Bytes → Prop
  | [] => True
  | c :: more => (lead.low ≤ c && c ≤ lead.high) = true ∧ ∀ d ∈ more, isContinuation d = true

theorem Lead.Admits.of_prefix {more : Bytes} (h : lead.Admits more) (hp : rest <+: more) :
    lead.Admits rest := by
  cases rest with
  | nil => trivial
  | cons c rest =>
    obtain ⟨tail, rfl⟩ := hp
    exact ⟨h.1, fun d hd => h.2 d (List.mem_append_left _ hd)⟩

/-- A leading byte admits its least second byte, and the least continuation bytes behind any
others. -/
theorem exists_admits_of_lead (hl : lead? b = some lead) (h : lead.Admits rest)
    (hlen : rest.length ≤ lead.more + 1) :
    ∃ more, (rest ++ more).length = lead.more + 1 ∧ lead.Admits (rest ++ more) := by
  have least : ∀ k, ∀ d ∈ List.replicate k (0x80 : UInt8), isContinuation d = true := by
    intro k d hd
    rw [List.eq_of_mem_replicate hd]
    decide
  cases rest with
  | nil =>
    refine ⟨lead.low :: List.replicate lead.more 0x80, by simp, ?_, least _⟩
    rw [second_iff]
    rcases lead?_cases hl with ⟨-, -, rfl⟩ | ⟨-, rfl⟩ | ⟨-, rfl⟩ | ⟨-, -, -, rfl⟩ | ⟨-, rfl⟩ |
      ⟨-, -, rfl⟩ | ⟨-, rfl⟩ <;> simp
  | cons c rest =>
    rw [List.length_cons] at hlen
    refine ⟨List.replicate (lead.more - rest.length) 0x80, ?_, h.1, fun d hd => ?_⟩
    · rw [List.length_append, List.length_cons, List.length_replicate]
      omega
    · exact (List.mem_append.1 hd).elim (h.2 d) (least _ d)

/-- A leading byte with as many bytes behind it as it announces. -/
theorem exists_sequence_of_admits (hl : lead? b = some lead) (h : lead.Admits rest)
    (hlen : rest.length = lead.more + 1) : ∃ v, Sequence (b :: rest) v := by
  match rest, h, hlen with
  | [c], h, hlen => exact ⟨_, .two hl (by simpa using hlen.symm) h.1⟩
  | [c, d], h, hlen =>
    exact ⟨_, .three hl (by simpa using hlen.symm) h.1 (h.2 d (by simp))⟩
  | [c, d, e], h, hlen =>
    exact ⟨_, .four hl (by simpa using hlen.symm) h.1 (h.2 d (by simp)) (h.2 e (by simp))⟩
  | c :: d :: e :: f :: rest, h, hlen =>
    have hmore := lead?_arith hl h.1
    simp only [List.length_cons] at hlen
    omega

/-- A sequence is a single byte, or a leading byte with as many bytes behind it as it
announces. -/
theorem Sequence.cases_cons {v : Nat} (h : Sequence (b :: rest) v) : b < 0x80 ∧ rest = [] ∨
    ∃ lead, lead? b = some lead ∧ rest.length = lead.more + 1 ∧ lead.Admits rest := by
  cases h with
  | one h => exact .inl ⟨h, rfl⟩
  | two h hmore hc => exact .inr ⟨_, h, by simp [hmore], hc, by simp⟩
  | three h hmore hc hd => exact .inr ⟨_, h, by simp [hmore], hc, by simpa using hd⟩
  | four h hmore hc hd he => exact .inr ⟨_, h, by simp [hmore], hc, by simpa using ⟨hd, he⟩⟩

/-- **Which bytes may follow a leading byte** in the beginning of an encoding. -/
theorem begins_lead_iff (hl : lead? b = some lead) :
    Begins (b :: rest) ↔ rest.length ≤ lead.more + 1 ∧ lead.Admits rest := by
  constructor
  · rintro ⟨c, more, hc⟩
    have hs := sequence_utf8EncodeChar c
    rw [← hc] at hs
    obtain ⟨hlt, -⟩ | ⟨lead', hl', hlen, hadmits⟩ := hs.cases_cons
    · exact absurd hlt (not_lt_of_lead? hl)
    · obtain rfl := Option.some.inj (hl.symm.trans hl')
      have hp : rest <+: rest ++ more := List.prefix_append _ _
      exact ⟨hlen ▸ hp.length_le, hadmits.of_prefix hp⟩
  · rintro ⟨hlen, hadmits⟩
    obtain ⟨more, hlen, hadmits⟩ := exists_admits_of_lead hl hadmits hlen
    obtain ⟨v, hs⟩ := exists_sequence_of_admits hl hadmits hlen
    exact ⟨Char.ofNat v, more, (utf8EncodeChar_of_sequence hs).2.symm⟩

theorem begins_lead (hl : lead? b = some lead) : Begins [b] :=
  (begins_lead_iff hl).2 ⟨Nat.zero_le _, trivial⟩

/-- No encoding begins with a byte that is neither a character nor a leading byte. -/
theorem not_begins_of_lone (hb : ¬b < 0x80) (hl : lead? b = none) : ¬Begins (b :: rest) := by
  rintro ⟨c, more, hc⟩
  have hs := sequence_utf8EncodeChar c
  rw [← hc] at hs
  obtain ⟨hlt, -⟩ | ⟨lead, hl', -⟩ := hs.cases_cons
  · exact hb hlt
  · exact absurd (hl.symm.trans hl') nofun

theorem begins_nil : Begins [] := ⟨'a', List.nil_prefix⟩

theorem Begins.of_prefix (h : Begins bytes) (hp : rest <+: bytes) : Begins rest :=
  h.imp fun _ => hp.trans

/-- A beginning of an encoding is the longest one if it does not go on. -/
theorem isGreatest_longest {longest : Nat} (hle : longest ≤ bytes.length)
    (h : Begins (bytes.take longest)) (hstop : ¬Begins (bytes.take (longest + 1))) :
    IsGreatest {m | m ≤ bytes.length ∧ Begins (bytes.take m)} longest := by
  refine ⟨⟨hle, h⟩, ?_⟩
  rintro m ⟨-, hm⟩
  by_contra hgt
  refine hstop (hm.of_prefix ?_)
  exact List.take_prefix_take_left (by omega)

/-! ### What stands where no character does -/

/-- **A malformed piece** is as long as the longest beginning of an encoding that stands there,
or a single byte where there is none. -/
theorem exists_longest_of_malformed (h : pieces bytes = .malformed n :: ps) :
    ∃ longest, n = max 1 longest ∧ longest ≤ 3 ∧ longest < bytes.length ∧
      Begins (bytes.take longest) ∧ ¬Begins (bytes.take (longest + 1)) := by
  unfold pieces at h
  repeat' split at h
  all_goals simp only [List.cons.injEq, Piece.malformed.injEq, reduceCtorEq, false_and] at h
  all_goals obtain ⟨rfl, -⟩ := h
  -- The piece ends before the second, the third or the fourth byte, or has no beginning at all.
  · next b rest hb _ hl =>
    exact ⟨0, rfl, by simp, by simp, begins_nil, not_begins_of_lone hb hl⟩
  · next b _ _ lead hl _ c rest hc =>
    refine ⟨1, rfl, by simp, by simp, begins_lead hl, fun h => ?_⟩
    obtain ⟨-, hadmits, -⟩ := (begins_lead_iff hl).1 h
    simp [hadmits] at hc
  · next b _ _ lead hl _ c hc h0 _ d rest hd =>
    simp only [Bool.not_eq_true, Bool.not_eq_false'] at hc
    have hmore : lead.more ≠ 0 := by simpa using h0
    refine ⟨2, rfl, by simp, by simp, (begins_lead_iff hl).2 ⟨?_, hc, by simp⟩, fun h => ?_⟩
    · simp
    · have hd' := ((begins_lead_iff hl).1 h).2.2 d (by simp)
      simp [hd'] at hd
  · next b _ _ lead hl _ c hc h0 _ d hd h1 _ e rest he =>
    simp only [Bool.not_eq_true, Bool.not_eq_false'] at hc hd
    have hmore : lead.more ≠ 0 := by simpa using h0
    refine ⟨3, rfl, by simp, by simp, (begins_lead_iff hl).2 ⟨?_, hc, by simpa using hd⟩,
      fun h => ?_⟩
    · simp
      omega
    · have he' := ((begins_lead_iff hl).1 h).2.2 e (by simp)
      simp [he'] at he

/-- **An unfinished piece** is the beginning of an encoding. -/
theorem begins_of_unfinished (h : pieces bytes = .unfinished n :: ps) : Begins bytes := by
  unfold pieces at h
  repeat' split at h
  all_goals simp only [List.cons.injEq, reduceCtorEq, false_and] at h
  · next b _ _ lead hl _ => exact begins_lead hl
  · next b _ _ lead hl _ c hc h0 _ =>
    simp only [Bool.not_eq_true, Bool.not_eq_false'] at hc
    exact (begins_lead_iff hl).2 ⟨by simp, hc, by simp⟩
  · next b _ _ lead hl _ c hc h0 _ d hd h1 _ =>
    simp only [Bool.not_eq_true, Bool.not_eq_false'] at hc hd
    have hmore : lead.more ≠ 0 := by simpa using h0
    refine (begins_lead_iff hl).2 ⟨?_, hc, by simpa using hd⟩
    simp
    omega

/-- Where an encoding stands, the cut starts with its character. -/
theorem pieces_of_prefix {c : Char} (h : String.utf8EncodeChar c <+: bytes) :
    ∃ ps, pieces bytes = .scalar c :: ps := by
  obtain ⟨rest, rfl⟩ := h
  rw [pieces_append (sequence_utf8EncodeChar c), Char.ofNat_toNat]
  exact ⟨_, rfl⟩

theorem unfinished_of_pieces (h : pieces bytes = .unfinished n :: ps) : Unfinished bytes := by
  obtain ⟨c, hc⟩ := begins_of_unfinished h
  refine ⟨?_, c, hc, ?_⟩
  · rintro rfl
    cases h
  · rintro rfl
    obtain ⟨ps', hps⟩ := pieces_of_prefix (List.prefix_refl (String.utf8EncodeChar c))
    rw [hps] at h
    cases h

/-! ### The first fault -/

/-- **The cut of bytes whose strict reading fails**: characters, and then a piece that spells
none. -/
theorem exists_of_scalars_eq_error {index : Nat} {fault : Fault}
    (h : scalars index (pieces bytes) = .error fault) :
    ∃ (cs : List Char) (rest : Bytes), bytes = cs.flatMap String.utf8EncodeChar ++ rest ∧
      fault.index = index + (cs.flatMap String.utf8EncodeChar).length ∧
      ((∃ n ps, pieces rest = .malformed n :: ps ∧ fault.length = some n) ∨
        ∃ n ps, pieces rest = .unfinished n :: ps ∧ fault.length = none) := by
  generalize hps : pieces bytes = ps at h
  induction ps generalizing bytes index with
  | nil => cases h
  | cons p ps ih =>
    cases p with
    | malformed n =>
      cases h
      exact ⟨[], bytes, rfl, rfl, .inl ⟨n, ps, hps, rfl⟩⟩
    | unfinished n =>
      cases h
      exact ⟨[], bytes, rfl, rfl, .inr ⟨n, ps, hps, rfl⟩⟩
    | scalar c =>
      obtain ⟨s, v, rest, hs, rfl, rfl, rfl⟩ := exists_sequence hps
      simp only [scalars] at h
      split at h
      · cases h
      · next f hf =>
        cases h
        obtain ⟨cs, rest', rfl, hindex, hpiece⟩ := ih rfl hf
        refine ⟨Char.ofNat v :: cs, rest', ?_, ?_, hpiece⟩
        · rw [List.flatMap_cons, (utf8EncodeChar_of_sequence hs).2, List.append_assoc]
        · rw [hindex, List.flatMap_cons, List.length_append, String.length_utf8EncodeChar,
            Nat.add_assoc]

theorem pieces_flatMap_append (cs : List Char) (rest : Bytes) :
    pieces (cs.flatMap String.utf8EncodeChar ++ rest) = cs.map Piece.scalar ++ pieces rest := by
  induction cs with
  | nil => rfl
  | cons c cs ih =>
    rw [List.flatMap_cons, List.append_assoc, pieces_append (sequence_utf8EncodeChar c), ih,
      Char.ofNat_toNat]
    rfl

/-- What stands behind characters in a text starts with a character, if there is any of it. -/
theorem exists_prefix_of_isText_append {cs : List Char} (hne : rest ≠ [])
    (h : IsText (cs.flatMap String.utf8EncodeChar ++ rest)) :
    ∃ c, String.utf8EncodeChar c <+: rest := by
  obtain ⟨text, h⟩ := h
  have hpieces := congrArg pieces h
  rw [pieces_flatMap_append, encode, pieces_flatMap, List.append_eq_map_iff] at hpieces
  obtain ⟨_, ds, -, -, hds⟩ := hpieces
  have hrest := eq_flatMap_of_pieces hds.symm
  cases ds with
  | nil => exact absurd hrest hne
  | cons d ds => exact ⟨d, hrest ▸ List.prefix_append _ _⟩

/-- **The strict reading fails by the first fault.** -/
theorem isFirst_of_decode_eq_error {fault : Fault} (h : decode bytes = .error fault) :
    fault.IsFirst bytes := by
  obtain ⟨cs, rest, rfl, hindex, hpiece⟩ := exists_of_scalars_eq_error h
  rw [Nat.zero_add] at hindex
  have hdrop : (cs.flatMap String.utf8EncodeChar ++ rest).drop fault.index = rest := by
    rw [hindex, List.drop_left]
  have hno : ∀ c, ¬String.utf8EncodeChar c <+: rest := by
    intro c hc
    obtain ⟨ps, hps⟩ := pieces_of_prefix hc
    rcases hpiece with ⟨n, ps', hps', -⟩ | ⟨n, ps', hps', -⟩ <;> cases hps.symm.trans hps'
  refine ⟨⟨⟨?_, ?_⟩, ?_⟩, ?_, ?_⟩
  · rw [hindex]
    exact (List.prefix_append _ _).length_le
  · rw [hindex, List.take_left]
    exact ⟨String.ofList cs, by rw [encode, String.toList_ofList]⟩
  · rintro m ⟨hm, htext⟩
    by_contra hlt
    rw [hindex, Nat.not_le] at hlt
    rw [List.length_append] at hm
    rw [List.take_append, List.take_of_length_le hlt.le] at htext
    -- The beginning takes some of the rest, but no character stands there.
    have hne : rest.take (m - (cs.flatMap String.utf8EncodeChar).length) ≠ [] := by
      rw [← List.length_pos_iff, List.length_take]
      omega
    obtain ⟨c, hc⟩ := exists_prefix_of_isText_append hne htext
    exact hno c (hc.trans (List.take_prefix _ _))
  · rw [hdrop]
    rcases hpiece with ⟨n, ps, hps, hlen⟩ | ⟨n, ps, hps, hlen⟩
    · obtain ⟨longest, -, -, -, -, hstop⟩ := exists_longest_of_malformed hps
      refine iff_of_false (by simp [hlen]) ?_
      rintro ⟨-, c, hc, -⟩
      exact hstop (Begins.of_prefix ⟨c, hc⟩ (List.take_prefix _ _))
    · exact iff_of_true hlen (unfinished_of_pieces hps)
  · rw [hdrop]
    intro n hn
    rcases hpiece with ⟨n', ps, hps, hlen⟩ | ⟨n', ps, hps, hlen⟩
    · obtain rfl := Option.some.inj (hn.symm.trans hlen)
      obtain ⟨longest, hmax, h3, hlt, hbegins, hstop⟩ := exists_longest_of_malformed hps
      exact ⟨by omega, by omega, longest, isGreatest_longest hlt.le hbegins hstop, hmax⟩
    · cases hn.symm.trans hlen

end Utf8

end WorkspaceFacts
