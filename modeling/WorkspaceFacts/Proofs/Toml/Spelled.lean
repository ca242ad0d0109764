import Mathlib.Data.List.Forall2
import WorkspaceFacts.Proofs.Text.Numerals
import WorkspaceFacts.Toml.Statement

/-!
# How documents can be spelled

A document can be typed in many ways: with quotes of four kinds and a choice of escapes for
every character, with blanks around its words, comments and line ends between its statements and
inside its arrays, a comma behind the last item. This grammar has them, as relations between what
is meant and the text that is written for it (`WorkspaceFacts.Toml.AllSpelled`). It is told from
the characters themselves and not from any reader.

What stands between the words of a document is the same whatever these words are. So the grammar
is one over the **words** (`WorkspaceFacts.Toml.Words`), the key paths and the scalars, and how
these are spelled is its parameter. `WorkspaceFacts.Toml.Words.any` lets a key and a scalar be
spelled in any way that means it; `WorkspaceFacts.Toml.Source.typed` lets a word stand only as it
was typed.

The grammar says nothing on how deep a term goes. Any term can be spelled; whether it can be read
is another matter (`WorkspaceFacts.Toml.TermOf.depth`).
-/

namespace WorkspaceFacts.Toml

/-! ### Characters -/

/-- Text that consists of blanks. -/
def IsBlankText (text : List Char) : Prop := ∀ c ∈ text, isBlank c

/-- The control characters. -/
def IsControl (c : Char) : Prop := c.toNat < 0x20 ∨ c.toNat = 0x7F

/-- The characters that may stand on a line: of the control characters only the tab. -/
def StaysOnLine (c : Char) : Prop := IsControl c → c = '\t'

instance (c : Char) : Decidable (IsControl c) := inferInstanceAs (Decidable (_ ∨ _))

instance (c : Char) : Decidable (StaysOnLine c) :=
  inferInstanceAs (Decidable (IsControl c → c = '\t'))

/-! ### Strings -/

namespace Quotation

/-- The characters that may stand for themselves between quotes that are not theirs. -/
def StandsForItself (multiline : Bool) (c : Char) : Prop :=
  StaysOnLine c ∨ multiline = true ∧ c = '\n'

instance (multiline : Bool) (c : Char) : Decidable (StandsForItself multiline c) :=
  inferInstanceAs (Decidable (_ ∨ _))

/-- The letters of the short escapes, each with the character that it stands for. -/
def letters : List (Char × Char) :=
  [('b', '\x08'), ('t', '\t'), ('n', '\n'), ('f', '\x0c'), ('r', '\r'), ('"', '"'), ('\\', '\\')]

/-- The character is the hexadecimal digit of the number, in either case. -/
def IsHexDigit (d : Nat) (c : Char) : Prop :=
  "0123456789abcdef".toList[d]? = some c ∨ "0123456789ABCDEF".toList[d]? = some c

instance (d : Nat) (c : Char) : Decidable (IsHexDigit d c) :=
  inferInstanceAs (Decidable (_ ∨ _))

/-- The number is spelled by hexadecimal digits, the most significant first. -/
def HexSpelled (n : Nat) (text : List Char) : Prop :=
  ∃ digits, List.Forall₂ IsHexDigit digits text ∧ Digits.toNat 16 digits = n

/-- **The character is spelled as the text** in a basic string: by itself, by a letter after a
backslash, or by four or eight hexadecimal digits. -/
inductive CharSpelled (multiline : Bool) (c : Char) : List Char → Prop
  | itself (h : StandsForItself multiline c) (hq : c ≠ '"') (hb : c ≠ '\\') :
      CharSpelled multiline c [c]
  | letter {e : Char} (h : (e, c) ∈ letters) : CharSpelled multiline c ['\\', e]
  | four {digits : List Char} (h : HexSpelled c.toNat digits) (hl : digits.length = 4) :
      CharSpelled multiline c ('\\' :: 'u' :: digits)
  | eight {digits : List Char} (h : HexSpelled c.toNat digits) (hl : digits.length = 8) :
      CharSpelled multiline c ('\\' :: 'U' :: digits)

/-- The characters are spelled as the text, one after the other and on one line. -/
inductive CharsSpelled : List Char → List Char → Prop
  | nil : CharsSpelled [] []
  | cons {c : Char} {cs text more : List Char} (h : CharSpelled false c text)
      (hm : CharsSpelled cs more) : CharsSpelled (c :: cs) (text ++ more)

/-- The string is spelled as the text, on one line. -/
inductive LineSpelled (s : List Char) : List Char → Prop
  | basic {text : List Char} (h : CharsSpelled s text) :
      LineSpelled s ('"' :: (text ++ ['"']))
  | literal (h : ∀ c ∈ s, StandsForItself false c ∧ c ≠ '\'') :
      LineSpelled s ('\'' :: (s ++ ['\'']))

/-- **The string is spelled as the text between three double quotes**, the closing quotes
included. Up to two quotes in front of these belong to the string, and a backslash at the end
of a line takes along the line end and all blanks and line ends behind it. -/
inductive BasicLines : List Char → List Char → Prop
  | close {k : Nat} (hk : k ≤ 2) : BasicLines (.replicate k '"') (.replicate (k + 3) '"')
  | char {c : Char} {s text more : List Char} (h : CharSpelled true c text)
      (hm : BasicLines s more) : BasicLines (c :: s) (text ++ more)
  | quote {s more : List Char} (hq : ¬['"', '"'] <+: more) (hm : BasicLines s more) :
      BasicLines ('"' :: s) ('"' :: more)
  | joined {s blanks spaces more : List Char} (hb : IsBlankText blanks)
      (hs : ∀ c ∈ spaces, isSpace c) (hn : NotFirst isSpace more) (hm : BasicLines s more) :
      BasicLines s ('\\' :: (blanks ++ '\n' :: (spaces ++ more)))

/-- **The string is spelled as the text between three single quotes**, the closing quotes
included. -/
inductive LiteralLines : List Char → List Char → Prop
  | close {k : Nat} (hk : k ≤ 2) : LiteralLines (.replicate k '\'') (.replicate (k + 3) '\'')
  | char {c : Char} {s more : List Char} (h : StandsForItself true c) (hq : c ≠ '\'')
      (hm : LiteralLines s more) : LiteralLines (c :: s) (c :: more)
  | quote {s more : List Char} (hq : ¬['\'', '\''] <+: more) (hm : LiteralLines s more) :
      LiteralLines ('\'' :: s) ('\'' :: more)

/-- **The text quotes the string.** A line end right behind three quotes is not part of the
string, so a string that starts with one has it twice. -/
inductive Quotes (s : List Char) : List Char → Prop
  | line {text : List Char} (h : LineSpelled s text) : Quotes s text
  | basic {text : List Char} (h : BasicLines s text) (hn : NotFirst (· == '\n') text) :
      Quotes s ('"' :: '"' :: '"' :: text)
  | basicBelow {text : List Char} (h : BasicLines s text) :
      Quotes s ('"' :: '"' :: '"' :: '\n' :: text)
  | literal {text : List Char} (h : LiteralLines s text) (hn : NotFirst (· == '\n') text) :
      Quotes s ('\'' :: '\'' :: '\'' :: text)
  | literalBelow {text : List Char} (h : LiteralLines s text) :
      Quotes s ('\'' :: '\'' :: '\'' :: '\n' :: text)

end Quotation

/-! ### What stands between words -/

/-- Text that may stand in a comment. -/
def IsComment (text : List Char) : Prop := ∀ c ∈ text, StaysOnLine c

instance (text : List Char) : Decidable (IsComment text) :=
  List.decidableBAll StaysOnLine text

/-- Text that carries no meaning: blanks, line ends and comments, each of which ends its
line. -/
inductive IsTrivia : List Char → Prop
  | nil : IsTrivia []
  | blank {c : Char} {more : List Char} (hc : isBlank c) (hm : IsTrivia more) :
      IsTrivia (c :: more)
  | lineEnd {more : List Char} (hm : IsTrivia more) : IsTrivia ('\n' :: more)
  | comment {text more : List Char} (ht : IsComment text) (hm : IsTrivia more) :
      IsTrivia ('#' :: (text ++ '\n' :: more))

/-- What may stand behind a statement on its line. -/
inductive EndsLine : List Char → Prop
  | blanks {blanks : List Char} (hb : IsBlankText blanks) : EndsLine blanks
  | comment {blanks text : List Char} (hb : IsBlankText blanks) (ht : IsComment text) :
      EndsLine (blanks ++ '#' :: text)

/-! ### Words -/

/-- **How the words of a document are spelled**: its key paths and its scalars. -/
structure Words (π σ : Type) where
  path : π → List Char → Prop
  scalar : σ → List Char → Prop

/-- **The key path is spelled as the text**, with dots between its keys and blanks around each of
them. How a key is spelled is left to `K`. -/
inductive PathSpelled {κ : Type} (K : κ → List Char → Prop) : List κ → List Char → Prop
  | last {key : κ} {before text after : List Char} (hb : IsBlankText before) (h : K key text)
      (ha : IsBlankText after) : PathSpelled K [key] (before ++ text ++ after)
  | cons {key : κ} {keys : List κ} {before text after more : List Char}
      (hb : IsBlankText before) (h : K key text) (ha : IsBlankText after)
      (hm : PathSpelled K keys more) :
      PathSpelled K (key :: keys) (before ++ text ++ after ++ '.' :: more)

/-- The key is spelled as the text. -/
inductive KeySpelled (key : String) : List Char → Prop
  | bare (nonempty : key.toList ≠ []) (chars : ∀ c ∈ key.toList, isBareKeyChar c) :
      KeySpelled key key.toList
  | quoted {text : List Char} (h : Quotation.LineSpelled key.toList text) : KeySpelled key text

/-- The key path is spelled as the text, and it is short enough to be read. -/
structure ShortPathSpelled (keys : List String) (text : List Char) : Prop where
  spelled : PathSpelled KeySpelled keys text
  short : keys.length < keyLimit

/-- **The scalar is spelled as the text.** -/
inductive Scalar.Spelled : Scalar → List Char → Prop
  | string {s : String} {text : List Char} (h : Quotation.Quotes s.toList text) :
      Spelled (.string s) text
  | lexeme {s : Scalar} {text : List Char} (chars : ∀ c ∈ text, isLexemeChar c)
      (h : scalarOf? text = some s) : Spelled s text

/-- The words of a document, spelled in any way that means them. -/
def Words.any : Words (List String) Scalar where
  path := ShortPathSpelled
  scalar := Scalar.Spelled

/-! ### Terms and statements -/

variable {π σ : Type}

/-- What can stand in a text on the level of terms: a term, the items of an array with the
bracket that closes it, and the assignments of an inline table with its brace. -/
inductive Part (π σ : Type)
  | term (t : TermOf π σ)
  | items (items : List (TermOf π σ))
  | assignments (assignments : List (π × TermOf π σ))

/-- **The part of a document is spelled as the text.** Inside the brackets of an array there may
be line ends and comments, and a comma behind the last item; inside the braces of an inline
table there may be blanks only. -/
inductive Part.Spelled (W : Words π σ) : Part π σ → List Char → Prop
  | scalar {s : σ} {text : List Char} (h : W.scalar s text) : Spelled W (.term (.scalar s)) text
  | array {items : List (TermOf π σ)} {text : List Char} (h : Spelled W (.items items) text) :
      Spelled W (.term (.array items)) ('[' :: text)
  | emptyTable {blanks : List Char} (hb : IsBlankText blanks) :
      Spelled W (.term (.table [])) ('\x7b' :: (blanks ++ ['\x7d']))
  | table {assignments : List (π × TermOf π σ)} {text : List Char}
      (h : Spelled W (.assignments assignments) text) :
      Spelled W (.term (.table assignments)) ('\x7b' :: text)
  | noItem {trivia : List Char} (ht : IsTrivia trivia) : Spelled W (.items []) (trivia ++ [']'])
  | lastItem {t : TermOf π σ} {before text after : List Char} (hb : IsTrivia before)
      (h : Spelled W (.term t) text) (ha : IsTrivia after) :
      Spelled W (.items [t]) (before ++ (text ++ (after ++ [']'])))
  | item {t : TermOf π σ} {items : List (TermOf π σ)} {before text after more : List Char}
      (hb : IsTrivia before) (h : Spelled W (.term t) text) (ha : IsTrivia after)
      (hm : Spelled W (.items items) more) :
      Spelled W (.items (t :: items)) (before ++ (text ++ (after ++ ',' :: more)))
  | lastAssignment {path : π} {t : TermOf π σ} {keys before text after : List Char}
      (hp : W.path path keys) (hb : IsBlankText before) (h : Spelled W (.term t) text)
      (ha : IsBlankText after) :
      Spelled W (.assignments [(path, t)])
        (keys ++ '=' :: (before ++ (text ++ (after ++ ['\x7d']))))
  | assignment {path : π} {t : TermOf π σ} {assignments : List (π × TermOf π σ)}
      {keys before text after more : List Char} (hp : W.path path keys)
      (hb : IsBlankText before) (h : Spelled W (.term t) text) (ha : IsBlankText after)
      (hm : Spelled W (.assignments assignments) more) :
      Spelled W (.assignments ((path, t) :: assignments))
        (keys ++ '=' :: (before ++ (text ++ (after ++ ',' :: more))))

/-- The statement is spelled as the text, without what stands before and behind it on its
line. -/
inductive StatementOf.Spelled (W : Words π σ) : StatementOf π σ → List Char → Prop
  | header {path : π} {keys : List Char} (hp : W.path path keys) :
      Spelled W (.header path) ('[' :: (keys ++ [']']))
  | arrayHeader {path : π} {keys : List Char} (hp : W.path path keys) :
      Spelled W (.arrayHeader path) ('[' :: '[' :: (keys ++ [']', ']']))
  | entry {path : π} {t : TermOf π σ} {keys before text : List Char} (hp : W.path path keys)
      (hb : IsBlankText before) (h : Part.Spelled W (.term t) text) :
      Spelled W (.entry path t) (keys ++ '=' :: (before ++ text))

/-- **The statements are spelled as the text**, each on a line of its own. In front of each there
may be blanks, comments and empty lines, and behind it, on its line, blanks and a comment. Behind
the last line there may be no line end. -/
inductive AllSpelled (W : Words π σ) : List (StatementOf π σ) → List Char → Prop
  | nil {before after : List Char} (hb : IsTrivia before) (ha : EndsLine after) :
      AllSpelled W [] (before ++ after)
  | last {statement : StatementOf π σ} {before text after : List Char} (hb : IsTrivia before)
      (h : statement.Spelled W text) (ha : EndsLine after) :
      AllSpelled W [statement] (before ++ (text ++ after))
  | cons {statement : StatementOf π σ} {statements : List (StatementOf π σ)}
      {before text after more : List Char} (hb : IsTrivia before) (h : statement.Spelled W text)
      (ha : EndsLine after) (hm : AllSpelled W statements more) :
      AllSpelled W (statement :: statements) (before ++ (text ++ (after ++ '\n' :: more)))

/-- **The text has the lines.** The lines end in line feeds, and the text may have a carriage
return in front of any of these. -/
inductive HasLines : List Char → List Char → Prop
  | nil : HasLines [] []
  | char {c : Char} {text lines : List Char} (h : HasLines text lines) :
      HasLines (c :: text) (c :: lines)
  | lineEnd {text lines : List Char} (h : HasLines text lines) :
      HasLines ('\r' :: '\n' :: text) ('\n' :: lines)

/-! ### How deep it goes -/

mutual

/-- How many levels of arrays and inline tables a term goes down. -/
def TermOf.depth : TermOf π σ → Nat
  | .scalar _ => 0
  | .array items => itemsDepth items + 1
  | .table assignments => assignmentsDepth assignments + 1

/-- The depth of the deepest of the items. -/
def TermOf.itemsDepth : List (TermOf π σ) → Nat
  | [] => 0
  | t :: ts => max t.depth (itemsDepth ts)

/-- The depth of the deepest of the assigned terms. -/
def TermOf.assignmentsDepth : List (π × TermOf π σ) → Nat
  | [] => 0
  | (_, t) :: rest => max t.depth (assignmentsDepth rest)

end

/-- The depth of the term that a statement assigns. -/
def StatementOf.depth : StatementOf π σ → Nat
  | .entry _ t => t.depth
  | _ => 0

end WorkspaceFacts.Toml
