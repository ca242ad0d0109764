import Mathlib.Data.List.Basic
import WorkspaceFacts.Proofs.Report.Writing

/-!
# The positional form is read back

The lines of a report carry no escaping, so they are read back only where no version holds
a line end and no rule a comma or a line end (`WorkspaceFacts.Report.Trusted`). For such a
report the bytes that are written split at their line ends into one field for every version
and one more, which splits at its commas into the rules that are shown
(`WorkspaceFacts.Report.write_lines_splits`).

Two things could go wrong at the edges, and do not. The last field may be empty, but it is
never left out; and it is empty only if no lint is disabled, because the prefix of a shown
rule keeps even an empty rule from vanishing.
-/

namespace WorkspaceFacts

/-! ### Texts between separators -/

namespace Utf8

/-- Texts with a byte between them, which stands in none of them, are told apart again. -/
theorem splitOn_encode_intercalate {separator : String} {b : UInt8} {texts : List String}
    (hs : encode separator = [b]) (hne : texts ≠ []) (h : ∀ text ∈ texts, b ∉ encode text) :
    (encode (separator.intercalate texts)).splitOn b = texts.map encode := by
  rw [encode_intercalate, hs]
  refine List.splitOn_intercalate b ?_ (by simpa using hne)
  intro bytes hb
  obtain ⟨text, ht, rfl⟩ := List.mem_map.1 hb
  exact h text ht

end Utf8

/-! ### The last line -/

namespace DisabledLint

/-- The byte between two rules that are shown. -/
def comma : UInt8 := ','.toUInt8

variable {lints : List DisabledLint} {c : Char}

/-- What is shown of a lint adds nothing to its rule but the prefix. -/
theorem not_mem_display {lint : DisabledLint} (hc : c ∉ "clippy::".toList)
    (h : c ∉ lint.rule.toList) : c ∉ lint.display.toList := by
  rw [show lint.display = "clippy::" ++ lint.rule from rfl, String.toList_append, List.mem_append]
  exact not_or.2 ⟨hc, h⟩

theorem encode_display_ne_nil (lint : DisabledLint) : Utf8.encode lint.display ≠ [] := by
  rw [show lint.display = "clippy::" ++ lint.rule from rfl, Utf8.encode_append]
  exact List.append_ne_nil_of_left_ne_nil (by decide) _

/-- The rules that are shown are told apart at the commas. -/
theorem splitOn_displayAll (hne : lints ≠ []) (h : ∀ lint ∈ lints, ',' ∉ lint.rule.toList) :
    (Utf8.encode (displayAll lints)).splitOn comma =
      lints.map fun lint => Utf8.encode lint.display := by
  rw [displayAll, Utf8.splitOn_encode_intercalate rfl (by simpa using hne), List.map_map]
  · rfl
  · intro text ht
    obtain ⟨lint, hl, rfl⟩ := List.mem_map.1 ht
    exact Utf8.not_mem_encode (by decide) (not_mem_display (by decide) (h lint hl))

/-- Nothing is shown only if there is nothing to show. -/
theorem encode_displayAll_eq_nil_iff : Utf8.encode (displayAll lints) = [] ↔ lints = [] := by
  constructor
  · intro h
    rw [displayAll, Utf8.encode_intercalate] at h
    cases lints with
    | nil => rfl
    | cons lint lints =>
      cases lints with
      | nil => exact absurd (by simpa using h) (encode_display_ne_nil lint)
      | cons next lints =>
        simp only [List.map_cons, List.intercalate_cons_cons, List.append_eq_nil_iff] at h
        exact absurd h.1.1 (encode_display_ne_nil lint)
  · rintro rfl
    rfl

/-- A character that stands in no rule stands between the rules only if it is the comma. -/
theorem not_mem_displayAll (hc : c ∉ "clippy::".toList) (hcomma : c ≠ ',')
    (h : ∀ lint ∈ lints, c ∉ lint.rule.toList) : c ∉ (displayAll lints).toList := by
  rw [displayAll]
  induction lints with
  | nil => exact List.not_mem_nil
  | cons lint lints ih =>
    rw [List.forall_mem_cons] at h
    have hlint := not_mem_display hc h.1
    cases lints with
    | nil => simpa using hlint
    | cons next lints =>
      rw [List.map_cons, List.map_cons, String.intercalate_cons_cons, String.toList_append,
        String.toList_append, List.mem_append, List.mem_append]
      exact not_or.2 ⟨not_or.2 ⟨hlint, by simpa using hcomma⟩, ih h.2⟩

end DisabledLint

/-! ### The lines of a report -/

namespace Report

/-- The byte that ends a line. -/
def lineEnd : UInt8 := '\n'.toUInt8

/-- **What the positional form trusts**: no version holds a line end, and no rule a comma or
a line end. -/
structure Trusted (report : Report) : Prop where
  version : ∀ v ∈ report.versions, '\n' ∉ v.version.toList
  rule : ∀ lint ∈ report.disabledLints, ',' ∉ lint.rule.toList ∧ '\n' ∉ lint.rule.toList

variable {report other : Report}

/-- The bytes of the positional form without the line end after them. -/
def body (report : Report) : Bytes := Utf8.encode (report.render .lines)

theorem write_lines (report : Report) :
    report.write .lines .endless = ⟨report.body ++ [lineEnd], none⟩ := by
  obtain ⟨htaken, herror⟩ := send_of_holds report .lines .endless nofun
  rw [write, htaken, herror, output, Utf8.encode_append]
  rfl

/-- The lines of a trusted report are told apart. -/
theorem Trusted.splitOn_body (h : report.Trusted) : report.body.splitOn lineEnd =
    (report.versions.map fun v => Utf8.encode v.version) ++
      [Utf8.encode (DisabledLint.displayAll report.disabledLints)] := by
  rw [body, render, Utf8.splitOn_encode_intercalate rfl (by simp [lines]), lines, List.map_append,
    List.map_map]
  · rfl
  · intro line hl
    refine Utf8.not_mem_encode (by decide) ?_
    rcases List.mem_append.1 hl with hl | hl
    · obtain ⟨v, hv, rfl⟩ := List.mem_map.1 hl
      exact h.version v hv
    · rw [List.mem_singleton.1 hl]
      exact DisabledLint.not_mem_displayAll (by decide) (by decide) fun lint hlint =>
        (h.rule lint hlint).2

/-- Trusted reports with the same lines hold the same versions and the same rules. -/
theorem Trusted.eq_of_render_eq (h : report.Trusted) (h' : other.Trusted)
    (he : report.render .lines = other.render .lines) :
    report.versions.map (·.version) = other.versions.map (·.version) ∧
      report.disabledLints.map (·.rule) = other.disabledLints.map (·.rule) := by
  have hsplit := h.splitOn_body
  rw [show report.body = other.body from congrArg Utf8.encode he, h'.splitOn_body] at hsplit
  obtain ⟨hversions, hlast⟩ := List.append_inj' hsplit rfl
  refine ⟨?_, ?_⟩
  · refine List.map_injective_iff.2 Utf8.encode_injective ?_
    rw [List.map_map, List.map_map]
    exact hversions.symm
  · have hlast : Utf8.encode (DisabledLint.displayAll other.disabledLints) =
        Utf8.encode (DisabledLint.displayAll report.disabledLints) := by simpa using hlast
    by_cases hne : report.disabledLints = []
    · rw [hne, DisabledLint.encode_displayAll_eq_nil_iff.2 rfl,
        DisabledLint.encode_displayAll_eq_nil_iff] at hlast
      rw [hne, hlast]
    · have hne' : other.disabledLints ≠ [] := by
        intro h0
        rw [DisabledLint.encode_displayAll_eq_nil_iff.2 h0] at hlast
        exact hne (DisabledLint.encode_displayAll_eq_nil_iff.1 hlast.symm)
      have hrules := DisabledLint.splitOn_displayAll hne fun lint hl => (h.rule lint hl).1
      rw [← hlast, DisabledLint.splitOn_displayAll hne' fun lint hl => (h'.rule lint hl).1]
        at hrules
      have shown : Function.Injective fun rule => Utf8.encode ("clippy::" ++ rule) :=
        fun _ _ hs => String.append_right_inj _ |>.1 (Utf8.encode_injective hs)
      refine List.map_injective_iff.2 shown ?_
      rw [List.map_map, List.map_map]
      exact hrules.symm

/-- **What is written as lines splits back into the report.** The bytes end with a line end.
Without it they split at the line ends into the versions, as they are, and one field more,
which is empty exactly if no lint is disabled and otherwise splits at the commas into the
rules that are shown. So the lines of a trusted report determine its versions and its
rules. -/
theorem write_lines_splits (h : report.Trusted) :
    (∃ body last : Bytes, report.write .lines .endless = ⟨body ++ [lineEnd], none⟩ ∧
      body.splitOn lineEnd = (report.versions.map fun v => Utf8.encode v.version) ++ [last] ∧
      (last = [] ↔ report.disabledLints = []) ∧
      (report.disabledLints ≠ [] → last.splitOn DisabledLint.comma =
        report.disabledLints.map fun lint => Utf8.encode ("clippy::" ++ lint.rule))) ∧
    ∀ other : Report, other.Trusted → report.render .lines = other.render .lines →
      report.versions.map (·.version) = other.versions.map (·.version) ∧
      report.disabledLints.map (·.rule) = other.disabledLints.map (·.rule) := by
  refine ⟨⟨report.body, _, report.write_lines, h.splitOn_body, ?_, fun hne => ?_⟩,
    fun other h' he => h.eq_of_render_eq h' he⟩
  · exact DisabledLint.encode_displayAll_eq_nil_iff
  · exact DisabledLint.splitOn_displayAll hne fun lint hl => (h.rule lint hl).1

/-- A report with an empty version, a rule without a name and a rule that looks like the
prefix. -/
def edgeReport : Report :=
  ⟨[⟨"osi", "1.0"⟩, ⟨"sys", ""⟩], [⟨"clippy", ""⟩, ⟨"rust", "a::b"⟩]⟩

theorem write_lines_edgeReport : edgeReport.Trusted ∧ ∃ body last : Bytes,
    edgeReport.write .lines .endless = ⟨body ++ [lineEnd], none⟩ ∧
    body.splitOn lineEnd = [Utf8.encode "1.0", [], last] ∧
    last.splitOn DisabledLint.comma = [Utf8.encode "clippy::", Utf8.encode "clippy::a::b"] := by
  have trusted : edgeReport.Trusted := ⟨by decide +kernel, by decide +kernel⟩
  obtain ⟨⟨body, last, hwrite, hbody, -, hlast⟩, -⟩ := write_lines_splits trusted
  exact ⟨trusted, body, last, hwrite, hbody, hlast (by decide)⟩

end Report

end WorkspaceFacts
