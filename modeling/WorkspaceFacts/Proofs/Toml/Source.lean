import WorkspaceFacts.Proofs.Toml.Reading.Scalars

/-!
# Sources: documents without their layout

A document as it is typed has more in it than a list of statements has: the quotes of its
strings, the digits of its numbers, the blanks, comments and line ends around them. Its
**source** keeps the first kind and drops the second. It is a list of statements over words,
`WorkspaceFacts.Toml.Source.KeyWord` and `WorkspaceFacts.Toml.Source.ScalarWord`, that stand
as they were typed; what carries no meaning comes back only when the source is laid out
(`WorkspaceFacts.Toml.Source.LaidOut`), by the grammar of all documents, and
`WorkspaceFacts.Toml.Source.plain` is the layout that has none of it.

A source need not be a document. A number may be too large for an integer or be no number at
all, a key path may have too many keys, a key may be assigned twice. Nothing of that is in the
way of laying it out.
-/

namespace WorkspaceFacts.Toml

/-! ### Words and statements over words -/

/-- **Text of the form of a scalar**: a quoted string, a lexeme, or a date and a lexeme with one
space between them. Which value the lexeme stands for, if any, is not asked. -/
inductive IsScalarText : List Char → Prop
  | string {s text : List Char} (h : Quotation.Quotes s text) : IsScalarText text
  | lexeme {text : List Char} (nonempty : text ≠ []) (chars : ∀ c ∈ text, isLexemeChar c) :
      IsScalarText text
  | dateTime {d : Date} {digit : Char} {more : List Char} (hd : d.Fits) (hdigit : digit.isDigit)
      (chars : ∀ c ∈ more, isLexemeChar c) : IsScalarText (d.text ++ ' ' :: digit :: more)

namespace Source

/-- A key and how it is typed. -/
structure KeyWord where
  key : String
  text : List Char
  spelled : KeySpelled key text

/-- A scalar as it is typed. -/
structure ScalarWord where
  text : List Char
  isScalarText : IsScalarText text

/-- A key path over words, of which there is at least one. -/
inductive KeyPath
  | last (word : KeyWord)
  | cons (word : KeyWord) (path : KeyPath)

/-- The words of a key path. -/
def KeyPath.words : KeyPath → List KeyWord
  | .last word => [word]
  | .cons word path => word :: path.words

/-- The words of a source stand as they were typed. -/
def typed : Words KeyPath ScalarWord where
  path := fun path text => PathSpelled (fun word text => text = word.text) path.words text
  scalar := fun word text => text = word.text

section Typed

variable {word : KeyWord} {path : KeyPath} {before after more : List Char}

theorem typed_last (hb : IsBlankText before) (ha : IsBlankText after) :
    typed.path (.last word) (before ++ word.text ++ after) := .last hb rfl ha

theorem typed_cons (hb : IsBlankText before) (ha : IsBlankText after)
    (hm : typed.path path more) :
    typed.path (.cons word path) (before ++ word.text ++ after ++ '.' :: more) :=
  .cons hb rfl ha hm

end Typed

/-- A term over words. -/
abbrev Term := TermOf KeyPath ScalarWord

/-- A statement over words. -/
abbrev Statement := StatementOf KeyPath ScalarWord

/-- **The statements are laid out as the text**: their words stand as they were typed, and what
stands between these is free. -/
abbrev LaidOut : List Statement → List Char → Prop := AllSpelled typed

/-! ### The plain layout -/

/-- The words of a key path with dots between them, and nothing else. -/
def KeyPath.plain : KeyPath → List Char
  | .last word => word.text
  | .cons word path => word.text ++ '.' :: path.plain

mutual

/-- A term without anything around its words but brackets, braces, commas and equals signs. -/
def Term.plain : Term → List Char
  | .scalar word => word.text
  | .array items => '[' :: plainItems items
  | .table assignments => '\x7b' :: plainAssignments assignments

/-- The items of an array, and the bracket that closes it. -/
def plainItems : List Term → List Char
  | [] => [']']
  | [t] => t.plain ++ [']']
  | t :: t' :: items => t.plain ++ ',' :: plainItems (t' :: items)

/-- The assignments of an inline table, and the brace that closes it. -/
def plainAssignments : List (KeyPath × Term) → List Char
  | [] => ['\x7d']
  | [(path, t)] => path.plain ++ '=' :: (t.plain ++ ['\x7d'])
  | (path, t) :: next :: assignments =>
    path.plain ++ '=' :: (t.plain ++ ',' :: plainAssignments (next :: assignments))

end

/-- A statement without anything around its words that carries no meaning. -/
def Statement.plain : Statement → List Char
  | .header path => '[' :: (path.plain ++ [']'])
  | .arrayHeader path => '[' :: '[' :: (path.plain ++ [']', ']'])
  | .entry path t => path.plain ++ '=' :: Term.plain t

/-- **The statements without trivia**, one on a line. -/
def plain (statements : List Statement) : List Char :=
  statements.flatMap fun statement => statement.plain ++ ['\n']

end Source

end WorkspaceFacts.Toml
