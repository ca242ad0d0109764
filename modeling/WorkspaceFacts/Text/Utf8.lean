/-!
# Bytes and the text they spell

File contents, path names and arguments arrive as bytes, and bytes need not spell a
text. `WorkspaceFacts.Utf8.pieces` cuts any byte string into the characters that it
spells and the pieces that spell nothing; the two readings of a byte string are read
off that cut:

* `WorkspaceFacts.Utf8.decode?` – the **strict** reading, which stops at the first
  piece that is no character and says where it lies and how long it is;
* `WorkspaceFacts.Utf8.display` – the **lossy** reading, which shows each such piece
  as one replacement character and goes on.

A piece that spells nothing is as long as it can be: it is the longest beginning of
an encoding that stands there, or a single byte where none does.
-/

namespace WorkspaceFacts

/-- A string of bytes: the contents of a file, an argument, the value of a variable. -/
abbrev Bytes := List UInt8

namespace Utf8

/-- A piece of a byte string: a character, or a run of bytes that spells none. -/
inductive Piece
  /-- The encoding of a character. -/
  | scalar (c : Char)
  /-- Bytes that no encoding goes on with; `count` of them belong together. -/
  | malformed (count : Nat)
  /-- The last bytes of the input, which begin an encoding and do not finish it. -/
  | unfinished (count : Nat)
  deriving DecidableEq

/-- What a leading byte announces: the bits it carries, the bytes that may stand
second, and how many continuation bytes follow the second one. -/
structure Lead where
  /-- The bits of the scalar value that the leading byte carries. -/
  bits : Nat
  /-- The least byte that may stand second. -/
  low : UInt8
  /-- The greatest byte that may stand second. -/
  high : UInt8
  /-- The number of bytes after the second. -/
  more : Nat
  deriving DecidableEq

/-- The leading bytes of the encodings of two, three and four bytes. The bounds on the
second byte leave out the overlong forms, the surrogates and the values above
`10FFFF`, so that every sequence that passes them spells a character. -/
def lead? (b : UInt8) : Option Lead :=
  if 0xC2 ≤ b && b ≤ 0xDF then some ⟨b.toNat - 0xC0, 0x80, 0xBF, 0⟩
  else if b == 0xE0 then some ⟨0, 0xA0, 0xBF, 1⟩
  else if b == 0xED then some ⟨0x0D, 0x80, 0x9F, 1⟩
  else if 0xE1 ≤ b && b ≤ 0xEF then some ⟨b.toNat - 0xE0, 0x80, 0xBF, 1⟩
  else if b == 0xF0 then some ⟨0, 0x90, 0xBF, 2⟩
  else if 0xF1 ≤ b && b ≤ 0xF3 then some ⟨b.toNat - 0xF0, 0x80, 0xBF, 2⟩
  else if b == 0xF4 then some ⟨4, 0x80, 0x8F, 2⟩
  else none

/-- Whether the byte continues an encoding. -/
def isContinuation (b : UInt8) : Bool := 0x80 ≤ b && b ≤ 0xBF

/-- The value of some bits followed by the six bits of a continuation byte. -/
def shiftIn (bits : Nat) (b : UInt8) : Nat := bits * 64 + (b.toNat - 0x80)

/-- Cuts a byte string into characters and pieces that spell none. -/
def pieces : Bytes → List Piece
  | [] => []
  | b :: rest =>
    if b < 0x80 then .scalar (Char.ofNat b.toNat) :: pieces rest
    else match lead? b with
      | none => .malformed 1 :: pieces rest
      | some lead =>
        match rest with
        | [] => [.unfinished 1]
        | c :: rest₂ =>
          if ! (lead.low ≤ c && c ≤ lead.high) then .malformed 1 :: pieces (c :: rest₂)
          else if lead.more == 0 then
            .scalar (Char.ofNat (shiftIn lead.bits c)) :: pieces rest₂
          else match rest₂ with
            | [] => [.unfinished 2]
            | d :: rest₃ =>
              if ! isContinuation d then .malformed 2 :: pieces (d :: rest₃)
              else if lead.more == 1 then
                .scalar (Char.ofNat (shiftIn (shiftIn lead.bits c) d)) :: pieces rest₃
              else match rest₃ with
                | [] => [.unfinished 3]
                | e :: rest₄ =>
                  if ! isContinuation e then .malformed 3 :: pieces (e :: rest₄)
                  else
                    .scalar (Char.ofNat (shiftIn (shiftIn (shiftIn lead.bits c) d) e))
                      :: pieces rest₄

/-- The first place at which bytes stop to spell a text. -/
structure Fault where
  /-- The number of bytes before it. -/
  index : Nat
  /-- The number of bytes that spell nothing, or `none` when the input ends inside an
  encoding. -/
  length : Option Nat
  deriving DecidableEq

/-- The wording of a fault. -/
def Fault.message (f : Fault) : String :=
  match f.length with
  | some n => "invalid utf-8 sequence of " ++ toString n ++ " bytes from index " ++ toString f.index
  | none => "incomplete utf-8 byte sequence from index " ++ toString f.index

/-- The characters of a cut that holds characters only, or its first fault; `index` is
the number of bytes before the cut. -/
def scalars (index : Nat) : List Piece → Except Fault (List Char)
  | [] => .ok []
  | .scalar c :: ps =>
    match scalars (index + c.utf8Size) ps with
    | .ok cs => .ok (c :: cs)
    | .error f => .error f
  | .malformed n :: _ => .error ⟨index, some n⟩
  | .unfinished _ :: _ => .error ⟨index, none⟩

/-- The **strict reading**: the text that the bytes spell, or the first fault. -/
def decode (bytes : Bytes) : Except Fault (List Char) := scalars 0 (pieces bytes)

/-- The text that the bytes spell, if they spell one. -/
def decode? (bytes : Bytes) : Option String :=
  match decode bytes with
  | .ok cs => some (String.ofList cs)
  | .error _ => none

/-- What is shown for a piece: itself, or the replacement character. -/
def Piece.shown : Piece → Char
  | .scalar c => c
  | _ => '\uFFFD'

/-- The **lossy reading**: every piece that spells nothing is shown as one replacement
character. -/
def display (bytes : Bytes) : String := String.ofList ((pieces bytes).map Piece.shown)

/-- The bytes that spell a text. -/
def encode (text : String) : Bytes := text.toList.flatMap String.utf8EncodeChar

end Utf8

end WorkspaceFacts
