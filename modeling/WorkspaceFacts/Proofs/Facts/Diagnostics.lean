import WorkspaceFacts.Proofs.Facts.FirstFault
import WorkspaceFacts.Proofs.Paths
import WorkspaceFacts.Proofs.Run
import WorkspaceFacts.Proofs.Text.Display

/-!
# How the paths of manifests are shown

A root can be any bytes, and a message that names one shows what can be shown of it. The paths of
the manifests are the root with some text behind it, and that text starts below `80`: with a
separator, or, where the root needs none, with a letter. So the seam between the two is one at
which nothing goes on (`WorkspaceFacts.Utf8.display_append`), and a manifest is shown as the root
is shown with the same text behind it (`WorkspaceFacts.Layout.display_of_mem_manifests`).

A run that fails names both in one line, first the root and then the manifest that is at fault.
-/

namespace WorkspaceFacts

/-- The text has no character above `7F`. -/
def IsAscii (text : String) : Prop := ∀ c ∈ text.toList, c.toNat < 0x80

instance (text : String) : Decidable (IsAscii text) :=
  List.decidableBAll (fun c : Char => c.toNat < 0x80) text.toList

/-! ### Text behind bytes -/

theorem Utf8.lt_of_mem_encode {text : String} (h : IsAscii text) {b : UInt8}
    (hb : b ∈ encode text) : b < 0x80 := by
  obtain ⟨c, hc, hb⟩ := List.mem_flatMap.1 hb
  have hval : c.val.toNat < 0x80 := h c hc
  rw [String.utf8EncodeChar, if_pos (Nat.le_of_lt_succ hval), List.mem_singleton] at hb
  rw [hb, UInt8.lt_iff_toNat_lt, toNat_ofNat_of_lt (Nat.lt_trans hval (by decide))]
  exact hval

/-- Text without characters above `7F` is shown as it is behind any bytes. -/
theorem Utf8.display_append_encode (bytes : Bytes) {text : String} (h : IsAscii text) :
    display (bytes ++ encode text) = display bytes ++ text := by
  rw [display_append (.inr fun b hb => lt_of_mem_encode h (List.mem_of_head? hb)), display_encode]

namespace Layout

variable {layout : Layout} {path : Path}

/-! ### Behind the root -/

/-- The places of the manifests, seen from the root. -/
def places : List String :=
  "Cargo.toml" :: packages.map fun package => "lib/" ++ package ++ "/Cargo.toml"

theorem manifests_eq (layout : Layout) :
    layout.manifests = places.map fun place => layout.root.join (.ofString place) := by
  have place : ∀ package ∈ packages, packagePlace package =
      .ofString ("lib/" ++ package ++ "/Cargo.toml") := by decide +kernel
  rw [manifests, places, List.map_cons, List.map_map]
  refine congrArg _ (List.map_congr_left fun package hp => ?_)
  rw [packageManifest_eq, place package hp, Function.comp_apply]

theorem places_relative : ∀ place ∈ places, IsAscii place ∧ place.toList.head? ≠ some '/' := by
  decide +kernel

/-- **The path of a manifest is the root and some text**, which is shown as it is. -/
theorem display_of_mem_manifests (h : path ∈ layout.manifests) : ∃ added : String, IsAscii added ∧
    path.bytes = layout.root.bytes ++ Utf8.encode added ∧
    path.display = layout.root.display ++ added := by
  rw [manifests_eq] at h
  obtain ⟨place, hplace, rfl⟩ := List.mem_map.1 h
  obtain ⟨hascii, hrelative⟩ := places_relative place hplace
  obtain ⟨added, hadded, hbytes⟩ : ∃ added, IsAscii added ∧
      (layout.root.join (.ofString place)).bytes = layout.root.bytes ++ Utf8.encode added := by
    rw [Path.join_of_relative (Path.isAbsolute_ofString_eq_false hrelative), Path.stem]
    split
    · exact ⟨place, hascii, rfl⟩
    · refine ⟨"/" ++ place, fun c hc => ?_, ?_⟩
      · rw [String.toList_append, List.mem_append] at hc
        rcases hc with hc | hc
        · obtain rfl : c = '/' := List.mem_singleton.1 hc
          decide
        · exact hascii c hc
      · rw [List.append_assoc, Utf8.encode_append]
        rfl
  refine ⟨added, hadded, hbytes, ?_⟩
  rw [Path.display, hbytes, Utf8.display_append_encode _ hadded]
  rfl

end Layout

/-! ### In the line that names a failure -/

/-- The wording of an error shows the path of the manifest that it is about. -/
theorem ManifestError.exists_message (e : ManifestError) :
    ∃ front back, e.message = front ++ e.path.display ++ back := by
  cases e with
  | read path cause =>
    refine ⟨"failed to read manifest ", "", ?_⟩
    rw [String.append_empty]
    rfl
  | encoding path fault =>
    refine ⟨"manifest ", " is not valid UTF-8", ?_⟩
    rfl
  | parse path =>
    refine ⟨"failed to parse manifest ", "", ?_⟩
    rw [String.append_empty]
    rfl
  | missingField path keys =>
    refine ⟨"missing field '" ++ field keys ++ "' in ", "", ?_⟩
    rw [String.append_empty]
    rfl
  | invalidField path keys expected =>
    refine ⟨"field '" ++ field keys ++ "' in ", " must be a " ++ expected.name, ?_⟩
    rw [← String.append_assoc]
    rfl

namespace Program

theorem run_of_failed {files : Files} {invocation : Invocation} {log : List String} {line : String}
    (h : run files invocation = .failed log line) :
    ∃ options e, CommandLine.read invocation.arguments = .ok options ∧
      (Report.collect files ⟨rootOf options invocation⟩).outcome = .error e ∧
      line = diagnostic (failure (rootOf options invocation) e) := by
  rw [run] at h
  split at h
  · next options hread =>
    refine ⟨options, ?_⟩
    obtain ⟨log', hrun⟩ := exists_runWith_eq files invocation options
    rw [hrun] at h
    split at h
    · cases h
    · next e he =>
      cases h
      exact ⟨e, hread, he, rfl⟩
  · split at h <;> cases h

/-- **The path of a manifest is shown behind the root**, whatever bytes the root has. What is shown
of bytes is every character that they spell, and one replacement character for as many other bytes
as go together; so a text is shown as it is. Bytes are shown one part after the other if the first
part is a text, or the second one is empty or starts below `80`. The paths of the manifests are the
root and some text of this kind. So where a run fails by the fault of a manifest, what its line
shows of the manifest starts with what it has shown of the root. -/
theorem manifests_are_shown_behind_root :
    (∀ bytes text, Utf8.ShownAs bytes text ↔ (Utf8.display bytes).toList = text) ∧
    (∀ text, Utf8.display (Utf8.encode text) = text) ∧
    (∀ front back, (Utf8.IsText front ∨ ∀ b, back.head? = some b → b < 0x80) →
      Utf8.display (front ++ back) = Utf8.display front ++ Utf8.display back) ∧
    (∀ layout : Layout, ∀ path ∈ layout.manifests, ∃ added, IsAscii added ∧
      path.bytes = layout.root.bytes ++ Utf8.encode added ∧
      path.display = layout.root.display ++ added) ∧
    ∀ files invocation log line, run files invocation = .failed log line →
      ∃ (options : CommandLine.Options) (e : ManifestError) (front back added : String),
        CommandLine.read invocation.arguments = .ok options ∧
        (Report.collect files ⟨rootOf options invocation⟩).outcome = .error e ∧
        line = "cargo-query error: failed to query workspace at " ++
          (rootOf options invocation).display ++ ": " ++ (front ++ e.path.display ++ back) ∧
        e.path.display = (rootOf options invocation).display ++ added := by
  refine ⟨fun _ _ => Utf8.shownAs_iff, Utf8.display_encode, fun _ _ => Utf8.display_append,
    fun layout path => Layout.display_of_mem_manifests, fun files invocation log line h => ?_⟩
  obtain ⟨options, e, hread, he, rfl⟩ := run_of_failed h
  obtain ⟨hmem, -⟩ := (Report.outcome_collect_eq_error_iff.1 he).isTrue
  obtain ⟨added, -, -, hadded⟩ := Layout.display_of_mem_manifests hmem
  obtain ⟨front, back, hmessage⟩ := e.exists_message
  refine ⟨options, e, front, back ++ e.cause?.elim "" (": " ++ ·), added, hread, he, ?_, hadded⟩
  have hbeginning : "cargo-query error: " ++ "failed to query workspace at " =
      "cargo-query error: failed to query workspace at " := by decide +kernel
  show "cargo-query error: " ++ ("failed to query workspace at " ++
    (rootOf options invocation).display ++ ": " ++ e.message ++ e.cause?.elim "" (": " ++ ·)) = _
  rw [hmessage, ← hbeginning]
  simp only [String.append_assoc]

/-- A run on a root that ends inside an encoding, where there is no file. -/
def unfinishedRootRun : Invocation := ⟨[Utf8.encode "-w", [0x77, 0xE2, 0x82]], none, none⟩

/-- The two bytes at the end of the root are shown as one replacement character, in the root and in
the manifest below it. -/
theorem run_unfinishedRootRun :
    Utf8.ShownAs [0x77, 0xE2, 0x82] ['w', '\uFFFD'] ∧
      Utf8.display ([0x77, 0xE2, 0x82] ++ Utf8.encode "/x") = "w\uFFFD/x" ∧
      run (Files.ofList []) unfinishedRootRun = .failed [] ("cargo-query error: failed " ++
        "to query workspace at w\uFFFD: failed to read manifest w\uFFFD/Cargo.toml: " ++
        "No such file or directory (os error 2)") ∧
      ∃ (options : CommandLine.Options) (e : ManifestError) (added : String),
        (Report.collect (Files.ofList []) ⟨rootOf options unfinishedRootRun⟩).outcome = .error e ∧
        e.path.display = (rootOf options unfinishedRootRun).display ++ added := by
  obtain ⟨shown, text, parts, -, line⟩ := manifests_are_shown_behind_root
  have hrun : run (Files.ofList []) unfinishedRootRun = .failed [] ("cargo-query error: failed " ++
      "to query workspace at w\uFFFD: failed to read manifest w\uFFFD/Cargo.toml: " ++
      "No such file or directory (os error 2)") := by decide +kernel
  obtain ⟨options, e, -, -, added, -, he, -, hadded⟩ := line _ _ _ _ hrun
  refine ⟨(shown _ _).2 (by decide +kernel), ?_, hrun, options, e, added, he, hadded⟩
  have hslash : ∀ b, (Utf8.encode "/x").head? = some b → b < 0x80 := by
    rintro b ⟨⟩
    decide
  rw [parts _ _ (.inr hslash), text]
  decide +kernel

end Program

end WorkspaceFacts
