import WorkspaceFacts.Proofs.Facts.FirstFault
import WorkspaceFacts.Proofs.Facts.SideBySide
import WorkspaceFacts.Proofs.Toml.Reading.Statements

/-!
# Line ends do not matter

A text whose lines end in line feeds can be kept with a carriage return in front of every line
feed (`WorkspaceFacts.Text.withReturns`), and whoever checks out a workspace may get the one or
the other. Both describe the same document, or none, and so both workspaces have the same
report or fail by the same error (`WorkspaceFacts.Report.line_ends_do_not_matter`).

There is one thing that the added characters change. A file that is no text at all has its
fault after more bytes than before, and the error says after how many. So it is for texts that
the outcomes are equal; what is no text stays no text.
-/

namespace WorkspaceFacts

/-! ### Texts -/

namespace Text

/-- How a character is written where lines end in a carriage return and a line feed. -/
def withReturn (c : Char) : List Char := if c = '\n' then ['\r', '\n'] else [c]

/-- **The text with a carriage return in front of every line feed.** -/
def withReturns (text : String) : String := String.ofList (text.toList.flatMap withReturn)

/-- **The text with a byte-order mark in front.** -/
def withMark (text : String) : String := String.ofList ('\uFEFF' :: text.toList)

end Text

namespace Toml

open Text

/-- Reading a text whose lines end in both characters leaves one of them. -/
theorem unifyLines_flatMap_withReturn {s : List Char} (h : '\r' ∉ s) :
    unifyLines (s.flatMap withReturn) = some s := by
  induction s with
  | nil => rfl
  | cons c s ih =>
    rw [List.mem_cons, not_or] at h
    rw [List.flatMap_cons, withReturn]
    split
    · next hc =>
      subst hc
      rw [List.cons_append, List.singleton_append, unifyLines, ih h.2, Option.map_some]
    · rw [List.singleton_append, unifyLines_cons (Ne.symm h.1), ih h.2, Option.map_some]

/-- No line end stands before the first character, so a mark in front stays in front. -/
theorem dropMark_flatMap_withReturn (s : List Char) :
    dropMark (s.flatMap withReturn) = (dropMark s).flatMap withReturn := by
  cases s with
  | nil => rfl
  | cons c s =>
    by_cases hc : c = '\uFEFF'
    · subst hc
      rfl
    · have hs : (c :: s).head? ≠ some '\uFEFF' := fun h => hc (Option.some.inj h)
      rw [dropMark_of_head_ne hs, dropMark_of_head_ne]
      rw [List.flatMap_cons, withReturn]
      split
      · exact fun h => by cases h
      · exact hs

theorem dropMark_sublist (s : List Char) : (dropMark s).Sublist s := by
  unfold dropMark
  split
  · exact List.sublist_cons_self _ _
  · exact List.Sublist.refl _

theorem Statement.ofText?_withReturns {s : List Char} (h : '\r' ∉ s) :
    Statement.ofText? (s.flatMap withReturn) = Statement.ofText? s := by
  have hdrop : '\r' ∉ dropMark s := fun hmem => h ((dropMark_sublist s).subset hmem)
  rw [Statement.ofText?, Statement.ofText?, dropMark_flatMap_withReturn,
    unifyLines_flatMap_withReturn hdrop, unifyLines_of_not_mem hdrop]

end Toml

namespace Manifest

open Text

/-- A text describes the same document with either line end. -/
theorem parse_withReturns (path : Path) {text : String} (h : '\r' ∉ text.toList) :
    parse path (withReturns text) = parse path text := by
  rw [parse, parse, Toml.Document.parse?, Toml.Document.parse?, withReturns, String.toList_ofList,
    Toml.Statement.ofText?_withReturns h]

theorem parse_withMark (path : Path) {text : String} (h : text.toList.head? ≠ some '\uFEFF') :
    parse path (withMark text) = parse path text := by
  rw [parse, parse, Toml.Document.parse?, Toml.Document.parse?, withMark, String.toList_ofList,
    Toml.Statement.ofText?, Toml.Statement.ofText?, Toml.dropMark_of_head_ne h]
  rfl

end Manifest

/-! ### Bytes -/

namespace Utf8

/-- The byte that stands for a line feed. -/
def lineFeed : UInt8 := '\n'.toUInt8

/-- The byte that stands for a carriage return. -/
def carriageReturn : UInt8 := '\r'.toUInt8

/-- How a byte is kept where lines end in a carriage return and a line feed. -/
def withReturn (b : UInt8) : Bytes := if b = lineFeed then [carriageReturn, lineFeed] else [b]

/-- **The bytes with a carriage return in front of every line feed.** -/
def withReturns (bytes : Bytes) : Bytes := bytes.flatMap withReturn

theorem flatMap_withReturn_utf8EncodeChar (c : Char) :
    (Text.withReturn c).flatMap String.utf8EncodeChar =
      (String.utf8EncodeChar c).flatMap withReturn := by
  by_cases hc : c = '\n'
  · subst hc
    rfl
  · have hbyte : ∀ b ∈ String.utf8EncodeChar c, withReturn b = [b] := fun b hb => by
      refine if_neg ?_
      rintro rfl
      exact hc (eq_of_mem_utf8EncodeChar (by decide) hb).symm
    rw [Text.withReturn, if_neg hc, List.flatMap_singleton, List.flatMap_congr hbyte,
      List.flatMap_singleton']

/-- The bytes of a text change as the text does. -/
theorem encode_withReturns (text : String) :
    encode (Text.withReturns text) = withReturns (encode text) := by
  rw [encode, encode, withReturns, Text.withReturns, String.toList_ofList, List.flatMap_assoc,
    List.flatMap_assoc]
  exact List.flatMap_congr fun c _ => flatMap_withReturn_utf8EncodeChar c

/-- What has been added can be taken out again. -/
theorem filter_withReturns {bytes : Bytes} (h : carriageReturn ∉ bytes) :
    (withReturns bytes).filter (· ≠ carriageReturn) = bytes := by
  induction bytes with
  | nil => rfl
  | cons b bytes ih =>
    rw [List.mem_cons, not_or] at h
    have hb : (withReturn b).filter (· ≠ carriageReturn) = [b] := by
      rw [withReturn]
      split
      · next heq =>
        subst heq
        rfl
      · exact List.filter_cons_of_pos (by simpa using Ne.symm h.1)
    rw [withReturns, List.flatMap_cons, List.filter_append, hb, List.singleton_append]
    exact congrArg (b :: ·) (ih h.2)

theorem filter_encode (cs : List Char) :
    (cs.flatMap String.utf8EncodeChar).filter (· ≠ carriageReturn) =
      (cs.filter (· ≠ '\r')).flatMap String.utf8EncodeChar := by
  induction cs with
  | nil => rfl
  | cons c cs ih =>
    rw [List.flatMap_cons, List.filter_append, ih, List.filter_cons]
    split
    · next hc =>
      have hbytes : ∀ b ∈ String.utf8EncodeChar c, decide (b ≠ carriageReturn) = true :=
        fun b hb => by
          refine decide_eq_true ?_
          rintro rfl
          exact of_decide_eq_true hc (eq_of_mem_utf8EncodeChar (by decide) hb).symm
      rw [List.filter_eq_self.2 hbytes, List.flatMap_cons]
    · next hc =>
      obtain rfl : c = '\r' := by simpa using hc
      rfl

/-- Bytes that become a text have been one before. -/
theorem exists_text_of_withReturns {bytes : Bytes} {text : String}
    (h : carriageReturn ∉ bytes) (he : withReturns bytes = encode text) :
    ∃ original, bytes = encode original := by
  refine ⟨String.ofList (text.toList.filter (· ≠ '\r')), ?_⟩
  rw [← filter_withReturns h, he, encode, encode, filter_encode, String.toList_ofList]

/-- Bytes without a carriage return spell no text with one. -/
theorem not_mem_of_encode {text : String} (h : carriageReturn ∉ encode text) :
    '\r' ∉ text.toList :=
  fun hmem => h (List.mem_flatMap.2 ⟨'\r', hmem, List.mem_singleton_self _⟩)

end Utf8

/-! ### Workspaces -/

open Utf8 (carriageReturn encode)

/-- **The files with a carriage return in front of every line feed.** -/
def Files.withReturns (files : Files) : Files := fun path => (files path).map Utf8.withReturns

/-- Two errors that say the same of some files: the same error, or twice that a file is no
text, which it is not. -/
inductive ManifestError.SameFault (files : Files) : ManifestError → ManifestError → Prop
  | same (e : ManifestError) : SameFault files e e
  | noText {path : Path} {bytes : Bytes} (fault fault' : Utf8.Fault)
      (h : files path = .ok bytes) (hb : ∀ text, bytes ≠ encode text) :
      SameFault files (.encoding path fault) (.encoding path fault')

open ManifestError (SameFault Admits)

variable {files : Files} {layout : Layout}

theorem admits_sameFault : Admits (SameFault files) Eq := by
  rintro e path rfl
  rw [ManifestError.withPath_path]
  exact .same e

namespace Manifest

/-- The two forms of a file are loaded alike. -/
theorem load_withReturns_alike {path : Path}
    (h : ∀ bytes, files path = .ok bytes → carriageReturn ∉ bytes) :
    Alike (SameFault files) (Twin Eq) (load files path).outcome
      (load files.withReturns path).outcome := by
  rw [load, load, Files.withReturns]
  cases hf : files path with
  | error cause => exact .error (.same _)
  | ok bytes =>
    refine Traced.alike_bind (.ok rfl) fun _ _ _ => ?_
    rw [Traced.outcome_of, Traced.outcome_of]
    by_cases ht : ∃ text, bytes = encode text
    · obtain ⟨text, rfl⟩ := ht
      rw [← Utf8.encode_withReturns, ofBytes_encode, ofBytes_encode,
        parse_withReturns path (Utf8.not_mem_of_encode (h _ hf))]
      cases parse path text with
      | error e => exact .error (.same e)
      | ok m => exact .ok ⟨rfl, rfl⟩
    · have hb : ∀ text, bytes ≠ encode text := fun text he => ht ⟨text, he⟩
      have hb' : ∀ text, Utf8.withReturns bytes ≠ encode text := fun text he =>
        ht (Utf8.exists_text_of_withReturns (h _ hf) he)
      obtain ⟨fault, he⟩ := exists_ofBytes_eq_encoding path hb
      obtain ⟨fault', he'⟩ := exists_ofBytes_eq_encoding path hb'
      rw [he, he']
      exact .error (.noText fault fault' hf hb)

end Manifest

namespace Report

theorem collect_withReturns_alike
    (h : ∀ path ∈ layout.manifests, ∀ bytes, files path = .ok bytes → carriageReturn ∉ bytes) :
    Alike (SameFault files) Eq (collect files layout).outcome
      (collect files.withReturns layout).outcome :=
  collect_alike admits_sameFault
    (List.forall₂_same.2 fun path hmem => Manifest.load_withReturns_alike (h path hmem))

/-- **Line ends do not matter, nor does a byte-order mark.** A text without carriage returns
describes the same document, or none, when there is one in front of every line feed, and a text
that has no byte-order mark in front does so with one. So a version and the disabled lints are
the same for both forms, and so is what comes of a whole workspace: the same report or the same
error. Only if a manifest is no text are there two errors, which both say so of the same
file. -/
theorem line_ends_do_not_matter :
    (∀ path text, '\r' ∉ text.toList →
      Manifest.parse path (Text.withReturns text) = Manifest.parse path text) ∧
    (∀ path text, text.toList.head? ≠ some '\uFEFF' →
      Manifest.parse path (Text.withMark text) = Manifest.parse path text) ∧
    (∀ path text path' text', '\r' ∉ text.toList → '\r' ∉ text'.toList →
      ((Manifest.parse path (Text.withReturns text)).bind fun workspace =>
          (Manifest.parse path' (Text.withReturns text')).bind fun package =>
            (Version.ofPackage package workspace).outcome) =
        ((Manifest.parse path text).bind fun workspace =>
          (Manifest.parse path' text').bind fun package =>
            (Version.ofPackage package workspace).outcome) ∧
      ((Manifest.parse path (Text.withReturns text)).bind fun workspace =>
          (Lint.disabled workspace).outcome) =
        ((Manifest.parse path text).bind fun workspace => (Lint.disabled workspace).outcome)) ∧
    ∀ files layout, (∀ path ∈ Layout.manifests layout, ∀ bytes, files path = .ok bytes →
        carriageReturn ∉ bytes) →
      Alike (SameFault files) Eq (collect files layout).outcome
        (collect files.withReturns layout).outcome ∧
      ((∀ path ∈ layout.manifests, ∀ bytes, files path = .ok bytes →
          ∃ text, bytes = encode text) →
        (collect files.withReturns layout).outcome = (collect files layout).outcome) := by
  refine ⟨fun path text => Manifest.parse_withReturns path,
    fun path text => Manifest.parse_withMark path, fun path text path' text' h h' => ?_,
    fun files layout h => ?_⟩
  · rw [Manifest.parse_withReturns path h, Manifest.parse_withReturns path' h']
    exact ⟨rfl, rfl⟩
  · have halike := collect_withReturns_alike h
    refine ⟨halike, fun htexts => ?_⟩
    generalize houtcome : (collect files layout).outcome = outcome at halike
    generalize (collect files.withReturns layout).outcome = outcome' at halike
    cases halike with
    | ok heq => rw [heq]
    | error he =>
      cases he with
      | same e => rfl
      | noText fault fault' hf hb =>
        obtain ⟨hmem, -⟩ := (outcome_collect_eq_error_iff.1 houtcome).isTrue
        obtain ⟨text, ht⟩ := htexts _ hmem _ hf
        exact absurd ht (hb text)

/-- A workspace in whose texts the lines end within strings and within an array. -/
def manyLines : Files := Files.ofList [
  (.ofString "ws/Cargo.toml", .ok (Utf8.encode (
    "members = [ # three\n  'osi',\n\n  'sys', 'tmp' ]\n[workspace.lints]\n" ++
    "clippy.a = \"\"\"\nal\\\n  low\"\"\"\nrust = {}\n"))),
  (.ofString "ws/lib/osi/Cargo.toml", .ok (Utf8.encode "package.version = '''\n1\n\n'''")),
  (.ofString "ws/lib/sys/Cargo.toml", .ok (Utf8.encode "[package]\nversion = '2' # two\n")),
  (.ofString "ws/lib/tmp/Cargo.toml", .ok (Utf8.encode "package.version = \"\"\"\\\n\n3\"\"\""))]

/-- The versions have line feeds, and nothing else if the lines of the files end in both
characters. -/
theorem collect_manyLines :
    (collect manyLines.withReturns ⟨.ofString "ws"⟩).outcome =
      .ok ⟨[⟨"osi", "1\n\n"⟩, ⟨"sys", "2"⟩, ⟨"tmp", "3"⟩], [⟨"clippy", "a"⟩]⟩ := by
  have hplain : (collect manyLines ⟨.ofString "ws"⟩).outcome =
      .ok ⟨[⟨"osi", "1\n\n"⟩, ⟨"sys", "2"⟩, ⟨"tmp", "3"⟩], [⟨"clippy", "a"⟩]⟩ := by
    decide +kernel
  have hbytes : ∀ path ∈ Layout.manifests ⟨.ofString "ws"⟩, ∀ bytes,
      manyLines path = .ok bytes → carriageReturn ∉ bytes := by
    have hall : ∀ path ∈ Layout.manifests ⟨.ofString "ws"⟩,
        ∀ bytes ∈ (manyLines path).toOption, carriageReturn ∉ bytes := by decide +kernel
    exact fun path hmem bytes hb => hall path hmem bytes (by rw [hb]; rfl)
  exact (line_ends_do_not_matter.2.2.2 manyLines ⟨.ofString "ws"⟩ hbytes).1.eq_ok hplain

end Report

end WorkspaceFacts
