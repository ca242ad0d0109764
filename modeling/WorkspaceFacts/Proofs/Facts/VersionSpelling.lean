import WorkspaceFacts.Proofs.Facts.Reports
import WorkspaceFacts.Proofs.Toml.Describing

/-!
# However a version is spelled

The version of a package is the string that its manifest means, character by character. How the
string is spelled does not matter, and neither does the document around it: which statements
lead to the version, in which order, with which blanks, lines and comments. The same goes for
the version that a package inherits (`WorkspaceFacts.Version.verbatim_however_spelled`).
-/

namespace WorkspaceFacts.Version

open Toml Toml.Statement

variable {s : String} {statements : List Statement} {table : Table}

/-! ### What statements give -/

/-- The string that is given as the version of a package is its version. -/
theorem outcome_ofPackage_of_give (h : Describe statements table)
    (hg : Give statements packageKeys (.scalar (.string s))) (path : Path)
    (workspace : Manifest) : (ofPackage ⟨path, table⟩ workspace).outcome = .ok s := by
  obtain ⟨v, hv, hold⟩ := h.holds hg
  obtain rfl := Option.some.inj hv
  exact outcome_ofPackage_eq_ok_iff.2 (.inl hold)

/-- Where a package says that it inherits its version. -/
def inheritKeys : List String := packageKeys ++ ["workspace"]

theorem inherits_of_give (h : Describe statements table)
    (hg : Give statements inheritKeys (.scalar (.boolean true))) : Inherits table := by
  obtain ⟨v, hv, hold⟩ := h.holds hg
  obtain rfl := Option.some.inj hv
  obtain ⟨package, hp, hold⟩ := Table.holds_cons_cons.1 hold
  obtain ⟨version, hv, hold⟩ := Table.holds_cons_cons.1 hold
  exact ⟨version, .through hp (.last hv), Table.holds_singleton.1 hold⟩

theorem lends_of_give (h : Describe statements table)
    (hg : Give statements workspaceKeys (.scalar (.string s))) : Lends table s := by
  obtain ⟨v, hv, hold⟩ := h.holds hg
  obtain rfl := Option.some.inj hv
  exact hold

/-- The string that is given as the version of a workspace is that of a package which inherits
it. -/
theorem outcome_ofPackage_of_inherits {statements' : List Statement} {table' : Table}
    (h : Describe statements table) (h' : Describe statements' table')
    (hg : Give statements inheritKeys (.scalar (.boolean true)))
    (hg' : Give statements' workspaceKeys (.scalar (.string s))) (path path' : Path) :
    (ofPackage ⟨path, table⟩ ⟨path', table'⟩).outcome = .ok s :=
  outcome_ofPackage_eq_ok_iff.2 (.inr ⟨inherits_of_give h hg, lends_of_give h' hg'⟩)

/-! ### Short manifests -/

/-- The statements of a manifest with one table and one entry in it. -/
def oneEntry (header keys : List String) (t : Term) : List Statement :=
  [.header header, .entry keys t]

section OneEntry

variable {header keys path : List String} {t value : Term}

theorem give_oneEntry (h : t.Gives path value) :
    Give (oneEntry header keys t) (header ++ keys ++ path) value := by
  refine .mk (i := 1) ⟨keys, header, rfl, rfl, rfl⟩ (fun array hmem => ?_) h
  simp [oneEntry] at hmem

theorem describe_oneEntry (hd : t.depth ≤ nestingLimit) (hh : dateTimeKey ∉ header)
    (hk : dateTimeKey ∉ keys)
    (ht : Document.ofStatements? (oneEntry header keys t) = some table) :
    Describe (oneEntry header keys t) table where
  depth := by simpa [oneEntry, StatementOf.depth] using hd
  clean := by simp [oneEntry, Statement.path, hh, hk]
  describes := ht

theorem allSpelled_oneEntry {headerText keysText word : List Char}
    (hh : ShortPathSpelled header headerText) (hk : ShortPathSpelled keys keysText)
    (hw : (Part.term t).Spelled .any word) :
    AllSpelled .any (oneEntry header keys t)
      ('[' :: headerText ++ ("]\n".toList ++ (keysText ++ ("= ".toList ++ (word ++ ['\n']))))) := by
  have hend : EndsLine [] := .blanks isBlankText_nil
  have hheader : (StatementOf.header header : Statement).Spelled .any _ := .header hh
  have hall := AllSpelled.cons .nil hheader hend
    (.cons .nil (.entry hk isBlankText_space hw) hend (.nil .nil hend))
  simpa [oneEntry] using hall

end OneEntry

theorem spelled_package : ShortPathSpelled ["package"] "package".toList :=
  ⟨.last isBlankText_nil (keySpelled_bare (by decide) rfl) isBlankText_nil, by decide⟩

theorem spelled_version : ShortPathSpelled ["version"] "version ".toList :=
  ⟨.last isBlankText_nil (keySpelled_bare (by decide) rfl) isBlankText_space, by decide⟩

/-- The manifest of a package with the version that is spelled as the word. -/
def ownText (word : List Char) : List Char :=
  "[package]\nversion = ".toList ++ (word ++ ['\n'])

/-- The manifest of a workspace with the version that is spelled as the word. -/
def lentText (word : List Char) : List Char :=
  "[workspace.package]\nversion = ".toList ++ (word ++ ['\n'])

/-- Two manifests of packages that inherit their version, by a dotted key and by an inline
table. -/
def inheritingTexts : List String :=
  ["[package]\nversion.workspace = true\n",
    "[package]\nversion = \x7b workspace = true \x7d\n"]

/-- However a version is spelled, there is a manifest that gives it to a package. -/
theorem exists_own {word : List Char} (h : Quotation.Quotes s.toList word) :
    ∃ statements table, Describe statements table ∧
      AllSpelled .any statements (ownText word) ∧
      Give statements packageKeys (.scalar (.string s)) := by
  refine ⟨oneEntry ["package"] ["version"] (.scalar (.string s)),
    [("package", .table [("version", .scalar (.string s))])], ?_, ?_, give_oneEntry (.itself _)⟩
  · exact describe_oneEntry (Nat.zero_le _) (by decide) (by decide) (by with_unfolding_all rfl)
  · exact allSpelled_oneEntry spelled_package spelled_version (.scalar (.string h))

/-- There is a manifest as well that gives it to be inherited. -/
theorem exists_lent {word : List Char} (h : Quotation.Quotes s.toList word) :
    ∃ statements table, Describe statements table ∧
      AllSpelled .any statements (lentText word) ∧
      Give statements workspaceKeys (.scalar (.string s)) := by
  have hpath : ShortPathSpelled ["workspace", "package"] "workspace.package".toList :=
    ⟨.cons isBlankText_nil (keySpelled_bare (by decide) rfl) isBlankText_nil
      spelled_package.spelled, by decide⟩
  refine ⟨oneEntry ["workspace", "package"] ["version"] (.scalar (.string s)),
    [("workspace", .table [("package", .table [("version", .scalar (.string s))])])], ?_, ?_,
    give_oneEntry (.itself _)⟩
  · exact describe_oneEntry (Nat.zero_le _) (by decide) (by decide) (by with_unfolding_all rfl)
  · exact allSpelled_oneEntry hpath spelled_version (.scalar (.string h))

/-- The table that both of them describe. -/
def inheriting : Table :=
  [("package", .table [("version", .table [("workspace", .scalar (.boolean true))])])]

theorem exists_inheriting {text : String} (h : text ∈ inheritingTexts) :
    ∃ statements table, Describe statements table ∧
      AllSpelled .any statements text.toList ∧
      Give statements inheritKeys (.scalar (.boolean true)) := by
  have htrue : Scalar.Spelled (.boolean true) "true".toList :=
    .lexeme (List.all_eq_true.1 rfl) rfl
  simp only [inheritingTexts, List.mem_cons, List.not_mem_nil, or_false] at h
  rcases h with rfl | rfl
  · have hpath : ShortPathSpelled ["version", "workspace"] "version.workspace ".toList :=
      ⟨.cons isBlankText_nil (keySpelled_bare (by decide) rfl) isBlankText_nil
        (.last isBlankText_nil (keySpelled_bare (by decide) rfl) isBlankText_space), by decide⟩
    refine ⟨oneEntry ["package"] ["version", "workspace"] (.scalar (.boolean true)), inheriting,
      ?_, ?_, give_oneEntry (.itself _)⟩
    · exact describe_oneEntry (Nat.zero_le _) (by decide) (by decide)
        (by with_unfolding_all rfl)
    · exact allSpelled_oneEntry spelled_package hpath (.scalar htrue)
  · -- Here the key that says so is inside an inline table.
    have hpath : ShortPathSpelled ["workspace"] " workspace ".toList :=
      ⟨.last isBlankText_space (keySpelled_bare (by decide) rfl) isBlankText_space, by decide⟩
    have hassigned : (Part.assignments [(["workspace"], .scalar (.boolean true))]).Spelled .any
        (" workspace ".toList ++ '=' :: ([' '] ++ ("true".toList ++ ([' '] ++ ['\x7d'])))) :=
      .lastAssignment hpath isBlankText_space (.scalar htrue) isBlankText_space
    have hword : (Part.term (.table [(["workspace"], .scalar (.boolean true))])).Spelled .any
        "\x7b workspace = true \x7d".toList := .table hassigned
    have hgives : Term.Gives (.table [(["workspace"], .scalar (.boolean true))]) ["workspace"]
        (.scalar (.boolean true)) :=
      .within (by decide) (List.mem_singleton_self _) (.itself _)
    refine ⟨oneEntry ["package"] ["version"] (.table [(["workspace"], .scalar (.boolean true))]),
      inheriting, ?_, ?_, give_oneEntry hgives⟩
    · exact describe_oneEntry (by decide) (by decide) (by decide) (by with_unfolding_all rfl)
    · exact allSpelled_oneEntry spelled_package spelled_version hword

/-! ### Versions verbatim -/

/-- **However a version is spelled, it is reported verbatim.** If the statements of a package
manifest give a string as its version, then every text for these statements is a manifest of
which that string is the version, in any workspace. If they say that the version is inherited
and the statements of a workspace manifest give a string to inherit, then that string is the
version of the package, again for all texts. Among these texts are, for every string and every
spelling of it, the manifests that hold nothing else. -/
theorem verbatim_however_spelled (s : String) :
    (∀ path statements table text, Describe statements table →
      AllSpelled .any statements text →
      Give statements packageKeys (.scalar (.string s)) →
      ∃ package, Manifest.parse path (String.ofList text) = .ok package ∧
        ∀ workspace, (ofPackage package workspace).outcome = .ok s) ∧
    (∀ path path' statements statements' table table' text text', Describe statements table →
      Describe statements' table' → AllSpelled .any statements text →
      AllSpelled .any statements' text' →
      Give statements inheritKeys (.scalar (.boolean true)) →
      Give statements' workspaceKeys (.scalar (.string s)) →
      ∃ package workspace, Manifest.parse path (String.ofList text) = .ok package ∧
        Manifest.parse path' (String.ofList text') = .ok workspace ∧
        (ofPackage package workspace).outcome = .ok s) ∧
    ∀ path path' word, Quotation.Quotes s.toList word →
      (∃ package, Manifest.parse path (String.ofList (ownText word)) = .ok package ∧
        ∀ workspace, (ofPackage package workspace).outcome = .ok s) ∧
      ∃ workspace, Manifest.parse path' (String.ofList (lentText word)) = .ok workspace ∧
        ∀ text ∈ inheritingTexts, ∃ package, Manifest.parse path text = .ok package ∧
          (ofPackage package workspace).outcome = .ok s := by
  refine ⟨fun path statements table text h hs hg => ?_,
    fun path path' statements statements' table table' text text' h h' hs hs' hg hg' => ?_,
    fun path path' word hword => ⟨?_, ?_⟩⟩
  · exact ⟨_, h.parse hs path, outcome_ofPackage_of_give h hg path⟩
  · exact ⟨_, _, h.parse hs path, h'.parse hs' path',
      outcome_ofPackage_of_inherits h h' hg hg' path path'⟩
  · obtain ⟨statements, table, h, hs, hg⟩ := exists_own hword
    exact ⟨_, h.parse hs path, outcome_ofPackage_of_give h hg path⟩
  · obtain ⟨lending, lent, h', hs', hg'⟩ := exists_lent hword
    refine ⟨_, h'.parse hs' path', fun text hmem => ?_⟩
    obtain ⟨statements, table, h, hs, hg⟩ := exists_inheriting hmem
    have hparse := h.parse hs path
    rw [String.ofList_toList] at hparse
    exact ⟨_, hparse, outcome_ofPackage_of_inherits h h' hg hg' path path'⟩

/-- A string of three characters, spelled with a line feed that stands for itself, with digits of
both cases and with a short escape. -/
theorem spelled_threeWays :
    Quotation.Quotes "\nî\"".toList "\"\"\"\n\n\\U000000Ee\\\"\"\"\"".toList := by
  have hdigits : Quotation.HexSpelled 'î'.toNat "000000Ee".toList := by
    have h0 : Quotation.IsHexDigit 0 '0' := by decide
    exact ⟨[0, 0, 0, 0, 0, 0, 14, 14], .cons h0 (.cons h0 (.cons h0 (.cons h0 (.cons h0 (.cons h0
      (.cons (by decide) (.cons (by decide) .nil))))))), rfl⟩
  exact .basicBelow (.char (.itself (by decide) (by decide) (by decide))
    (.char (.eight hdigits rfl) (.char (.letter (by decide)) (.close (Nat.zero_le 2)))))

/-- A package states this string on its own, and another one inherits it. Behind the version of
a third one there is a comment, and its line does not end. -/
theorem verbatim_threeWays :
    (∃ package, Manifest.parse ⟨[]⟩
        "[package]\nversion = \"\"\"\n\n\\U000000Ee\\\"\"\"\"\n" = .ok package ∧
      ∀ workspace, (ofPackage package workspace).outcome = .ok "\nî\"") ∧
    (∃ package workspace,
      Manifest.parse ⟨[]⟩ "[package]\nversion.workspace = true\n" = .ok package ∧
      Manifest.parse ⟨[]⟩
        "[workspace.package]\nversion = \"\"\"\n\n\\U000000Ee\\\"\"\"\"\n" = .ok workspace ∧
      (ofPackage package workspace).outcome = .ok "\nî\"") ∧
    ∃ package, Manifest.parse ⟨[]⟩ "package . version='\\' # own" = .ok package ∧
      ∀ workspace, (ofPackage package workspace).outcome = .ok "\\" := by
  obtain ⟨hown, workspace, hlent, hall⟩ :=
    (verbatim_however_spelled "\nî\"").2.2 ⟨[]⟩ ⟨[]⟩ _ spelled_threeWays
  obtain ⟨package, hp, hv⟩ := hall _ List.mem_cons_self
  refine ⟨hown, ⟨package, workspace, hp, hlent, hv⟩, ?_⟩
  have hdescribe : Describe [.entry ["package", "version"] (.scalar (.string "\\"))]
      [("package", .table [("version", .scalar (.string "\\"))])] :=
    ⟨by decide, by decide, by with_unfolding_all rfl⟩
  have hpath : ShortPathSpelled ["package", "version"] "package . version".toList :=
    ⟨.cons isBlankText_nil (keySpelled_bare (by decide) rfl) isBlankText_space
      (.last isBlankText_space (keySpelled_bare (by decide) rfl) isBlankText_nil), by decide⟩
  have hword : Quotation.Quotes "\\".toList "'\\'".toList :=
    .line (.literal fun c hc => by
      obtain rfl := List.mem_singleton.1 hc
      decide)
  have hend : EndsLine " # own".toList := .comment isBlankText_space (by decide)
  have hentry : StatementOf.Spelled .any (.entry ["package", "version"] (.scalar (.string "\\")))
      ("package . version".toList ++ '=' :: ([] ++ "'\\'".toList)) :=
    .entry hpath isBlankText_nil (.scalar (Scalar.Spelled.string hword))
  have hlast : AllSpelled .any [.entry ["package", "version"] (.scalar (.string "\\"))]
      "package . version='\\' # own".toList := .last .nil hentry hend
  have hassigns : Assigns [.entry ["package", "version"] (.scalar (.string "\\"))] 0
      packageKeys (.scalar (.string "\\")) := ⟨packageKeys, [], rfl, rfl, rfl⟩
  exact (verbatim_however_spelled "\\").1 ⟨[]⟩ _ _ _ hdescribe hlast
    (.mk hassigns (by simp [Outside]) (.itself _))

end WorkspaceFacts.Version
