import WorkspaceFacts.Proofs.Json.Printing
import WorkspaceFacts.Report.Output

/-!
# The JSON form is read back

Unlike the positional form, the JSON form of a report trusts nothing: whatever characters
the packages, versions and rules hold, the text is one that a strict reader accepts as a
whole, and what it reads is the report (`WorkspaceFacts.Report.parse?_render_json`). Only
the groups of the disabled lints are not in it.
-/

namespace WorkspaceFacts

theorem PackageVersion.toJson_injective : Function.Injective PackageVersion.toJson := by
  rintro ⟨package, version⟩ ⟨package', version'⟩ h
  simp only [toJson, Json.object.injEq, List.cons.injEq, Prod.mk.injEq, Json.string.injEq,
    true_and, and_true] at h
  obtain ⟨rfl, rfl⟩ := h
  rfl

namespace Report

/-- The object of a report has no number in it, so it is printable. -/
theorem printable_toJson (report : Report) : Json.Printable report.toJson := by
  have hversions : Json.Printable (.array (report.versions.map PackageVersion.toJson)) := by
    refine .array fun v hv => ?_
    obtain ⟨version, -, rfl⟩ := List.mem_map.1 hv
    refine .object fun name value hmem => ?_
    have hvalue : value = .string version.package ∨ value = .string version.version := by
      simp only [List.mem_cons, Prod.mk.injEq, List.not_mem_nil, or_false] at hmem
      exact hmem.imp And.right And.right
    rcases hvalue with rfl | rfl
    all_goals exact .string _
  have hlints : Json.Printable (.array (report.disabledLints.map DisabledLint.toJson)) := by
    refine .array fun v hv => ?_
    obtain ⟨lint, -, rfl⟩ := List.mem_map.1 hv
    exact .string _
  refine .object fun name value hmem => ?_
  simp only [List.mem_cons, Prod.mk.injEq, List.not_mem_nil, or_false] at hmem
  rcases hmem with ⟨-, rfl⟩ | ⟨-, rfl⟩
  · exact hversions
  · exact hlints

/-- The object of a report tells its versions and its rules. -/
theorem eq_of_toJson_eq {report other : Report} (h : report.toJson = other.toJson) :
    report.versions = other.versions ∧
      report.disabledLints.map (·.rule) = other.disabledLints.map (·.rule) := by
  simp only [toJson, Json.object.injEq, List.cons.injEq, Prod.mk.injEq, Json.array.injEq, true_and,
    and_true] at h
  obtain ⟨hversions, hlints⟩ := h
  have shown : Function.Injective fun rule => Json.string ("clippy::" ++ rule) :=
    fun _ _ hs => (String.append_right_inj _).1 (Json.string.inj hs)
  refine ⟨List.map_injective_iff.2 PackageVersion.toJson_injective hversions,
    List.map_injective_iff.2 shown ?_⟩
  rw [List.map_map, List.map_map]
  exact hlints

/-- **The JSON form is read back as the report**: as an object of the versions, each with its
package, and the rules that are shown, in the order of the report. So reports that differ in
a package, a version or a rule never have the same JSON text. -/
theorem parse?_render_json (report : Report) :
    Json.parse? (report.render .json) = some (.object [
      ("versions", .array (report.versions.map fun v =>
        .object [("package", .string v.package), ("version", .string v.version)])),
      ("disabled_lints", .array (report.disabledLints.map fun lint =>
        .string ("clippy::" ++ lint.rule)))]) ∧
    ∀ other : Report, report.render .json = other.render .json →
      report.versions = other.versions ∧
        report.disabledLints.map (·.rule) = other.disabledLints.map (·.rule) := by
  have reads (report : Report) : Json.parse? (report.render .json) = some report.toJson :=
    (Json.parse?_forms report.printable_toJson).1
  refine ⟨reads report, fun other h => ?_⟩
  have hread := reads report
  rw [h, reads other] at hread
  exact eq_of_toJson_eq (Option.some.inj hread).symm

/-- A report whose texts need escapes, with its one lint in the given group. -/
def escapedReport (group : String) : Report :=
  ⟨[⟨"o\"s\\i", "1.0\n\x00"⟩, ⟨"", "é"⟩], [⟨group, "a\tb"⟩]⟩

theorem parse?_render_json_escapedReport :
    Json.parse? ((escapedReport "clippy").render .json) = some (.object [
      ("versions", .array [
        .object [("package", .string "o\"s\\i"), ("version", .string "1.0\n\x00")],
        .object [("package", .string ""), ("version", .string "é")]]),
      ("disabled_lints", .array [.string "clippy::a\tb"])]) ∧
    (escapedReport "clippy").render .json = (escapedReport "rust").render .json ∧
    (escapedReport "clippy").versions = (escapedReport "rust").versions := by
  have same : (escapedReport "clippy").render .json = (escapedReport "rust").render .json := rfl
  obtain ⟨hread, hother⟩ := parse?_render_json (escapedReport "clippy")
  exact ⟨hread, same, (hother _ same).1⟩

end Report

end WorkspaceFacts
