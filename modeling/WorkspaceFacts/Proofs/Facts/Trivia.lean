import WorkspaceFacts.Manifest
import WorkspaceFacts.Proofs.Toml.Reading.Sources

/-!
# What carries no meaning does not change a manifest

The text of a manifest can be laid out in many ways: blanks around its words, comments at the
ends of its lines, empty lines, arrays over several lines, either line end. None of it matters.
Every layout of a source is parsed as the plain layout is, which has nothing between its words
that could be left out (`WorkspaceFacts.Manifest.parse_ignores_trivia`): both are the same
manifest or neither is one.

That is so because both texts are read as what the source means
(`WorkspaceFacts.Toml.AllSpelled.ofText?`), and this is told from the source alone.
-/

namespace WorkspaceFacts.Manifest

open Toml Source

/-- **White space, comments and empty lines do not change a manifest.** However the statements of
a source are laid out as lines, and however these lines end in the text, the text is parsed as
the plain layout is. So the tables are the same, and their keys stand in the same order, or both
texts are refused. -/
theorem parse_ignores_trivia (path : WorkspaceFacts.Path) {statements : List Source.Statement}
    {lines text : List Char} (h : Source.LaidOut statements lines) (ht : HasLines text lines) :
    parse path (String.ofList text) = parse path (String.ofList (Source.plain statements)) := by
  have hread : Toml.Statement.ofText? text = meaning.statements? statements :=
    h.ofText? readAs_typed ht
  have hplain : Toml.Statement.ofText? (Source.plain statements) =
      meaning.statements? statements := (laidOut_plain statements).ofText? readAs_typed (.refl _)
  rw [parse, parse, Document.parse?, Document.parse?, String.toList_ofList, String.toList_ofList,
    hread, hplain]

/-- A key that is typed without quotes. -/
def bareWord (key : String) (nonempty : key.toList ≠ []) (chars : key.toList.all isBareKeyChar) :
    KeyWord :=
  ⟨key, key.toList, keySpelled_bare nonempty chars⟩

/-- A key that is a dot. -/
def dotWord : KeyWord :=
  ⟨".", "'.'".toList, .quoted (.literal fun c hc => by
    obtain rfl := List.mem_singleton.1 hc
    decide)⟩

def oneWord : ScalarWord := ⟨['1'], .lexeme (List.cons_ne_nil _ _) (List.all_eq_true.1 rfl)⟩

/-- A string over two lines, the first of which looks like a comment. -/
def hashWord : ScalarWord :=
  ⟨"'''\n#\n'''".toList, .string (.literalBelow (.char (by decide) (by decide)
    (.char (by decide) (by decide) (.close (Nat.zero_le 2)))))⟩

/-- An array that holds an inline table. -/
def smallTerm : Source.Term :=
  .array [.scalar oneWord, .table [(.last (bareWord "e" (by decide) rfl), .scalar hashWord)]]

/-- A header and an entry of the table that it opens. -/
def smallSource : List Source.Statement :=
  [.header (.cons (bareWord "a" (by decide) rfl) (.last dotWord)),
    .entry (.last (bareWord "d" (by decide) rfl)) smallTerm]

/-- The array over three lines, with a comment that looks like its end. -/
theorem laidOut_smallTerm : Part.Spelled typed (.term smallTerm)
    "[ # ]\n 1,\n \x7b e ='''\n#\n''' \x7d , ]".toList := by
  have hopen : IsTrivia " # ]\n ".toList :=
    .blank rfl (@IsTrivia.comment " ]".toList _ (by decide) isBlankText_space.isTrivia)
  have hkey : typed.path (.last (bareWord "e" (by decide) rfl)) " e ".toList :=
    typed_last isBlankText_space isBlankText_space
  have hassigned : Part.Spelled typed
      (.assignments [(.last (bareWord "e" (by decide) rfl), .scalar hashWord)])
      (" e ".toList ++ '=' :: ([] ++ (hashWord.text ++ ([' '] ++ ['\x7d'])))) :=
    .lastAssignment hkey isBlankText_nil (.scalar rfl) isBlankText_space
  exact .array (.item hopen (.scalar rfl) .nil (.item (.lineEnd isBlankText_space.isTrivia)
    (.table hassigned) isBlankText_space.isTrivia (.noItem isBlankText_space.isTrivia)))

/-- The statements with comments that look like a header and like the start of a string. -/
theorem laidOut_smallSource : Source.LaidOut smallSource
    "# [a]\n\n\t[ a .'.'] # = \"\"\"\nd\t= [ # ]\n 1,\n \x7b e ='''\n#\n''' \x7d , ]".toList := by
  have htab : IsBlankText ['\t'] := by simp [IsBlankText, isBlank]
  have htop : IsTrivia "# [a]\n\n\t".toList :=
    @IsTrivia.comment " [a]".toList _ (by decide) (.lineEnd htab.isTrivia)
  have hpath : typed.path (.cons (bareWord "a" (by decide) rfl) (.last dotWord))
      " a .'.'".toList :=
    typed_cons isBlankText_space isBlankText_space (typed_last isBlankText_nil isBlankText_nil)
  have hend : EndsLine " # = \"\"\"".toList := .comment isBlankText_space (by decide)
  have hkey : typed.path (.last (bareWord "d" (by decide) rfl)) "d\t".toList :=
    typed_last isBlankText_nil htab
  have hentry : StatementOf.Spelled typed (.entry (.last (bareWord "d" (by decide) rfl)) smallTerm)
      "d\t= [ # ]\n 1,\n \x7b e ='''\n#\n''' \x7d , ]".toList :=
    .entry hkey isBlankText_space laidOut_smallTerm
  exact .cons htop (.header hpath) hend (.last .nil hentry (.blanks isBlankText_nil))

/-- These lines, some of which end in two characters, are parsed as the same statements with
nothing between their words. -/
theorem parse_smallSource :
    parse ⟨[]⟩ (String.ofList ("# [a]\r\n\n\t[ a .'.'] # = \"\"\"\r\n" ++
        "d\t= [ # ]\n 1,\r\n \x7b e ='''\n#\r\n''' \x7d , ]").toList) =
      parse ⟨[]⟩ "[a.'.']\nd=[1,\x7be='''\n#\n'''\x7d]\n" ∧
    parse ⟨[]⟩ "[a.'.']\nd=[1,\x7be='''\n#\n'''\x7d]\n" =
      .ok ⟨⟨[]⟩, [("a", .table [(".", .table [("d", .array
        [.scalar (.integer 1), .table [("e", .scalar (.string "#\n"))]])])])]⟩ := by
  have hplain : "[a.'.']\nd=[1,\x7be='''\n#\n'''\x7d]\n" =
      String.ofList (Source.plain smallSource) := by decide +kernel
  rw [hplain]
  refine ⟨parse_ignores_trivia ⟨[]⟩ laidOut_smallSource (.of_unifyLines (by decide +kernel)), ?_⟩
  have hone : oneWord.scalar? = some (.integer 1) := by decide +kernel
  have hhash : hashWord.scalar? = some (.string "#\n") := by decide +kernel
  have hmeans : meaning.statements? smallSource = some [.header ["a", "."], .entry ["d"]
      (.array [.scalar (.integer 1), .table [(["e"], .scalar (.string "#\n"))]])] := by
    have hscalar : meaning.scalar? = ScalarWord.scalar? := rfl
    simp only [smallSource, smallTerm, Meaning.statements?, Meaning.statement?, nestingLimit,
      Meaning.term?, Meaning.items?, Meaning.assignments?, hscalar, hone, hhash]
    rfl
  rw [parse, Document.parse?, String.toList_ofList,
    (laidOut_plain smallSource).ofText? readAs_typed (.refl _), hmeans]
  rfl

end WorkspaceFacts.Manifest
