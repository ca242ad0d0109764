import WorkspaceFacts.Proofs.Facts.Faults
import WorkspaceFacts.Proofs.Text.Malformed

/-!
# The bytes of a manifest

The bytes of a manifest are read as text before anything is made of the text. So bytes that spell
no text are an error of their own, which names the place where they stop to spell one, whatever
stands before that place; and all other bytes are as good as the text that they spell
(`WorkspaceFacts.Manifest.load_classifies_bytes`).
-/

namespace WorkspaceFacts

namespace Manifest

variable {files : Files} {path place : Path} {bytes : Bytes} {text : String} {fault : Utf8.Fault}

/-- What is loaded from a file that can be read is what its bytes are made into. -/
theorem outcome_load_of_read (h : files path = .ok bytes) :
    (load files path).outcome = ofBytes path bytes := by
  rw [load, h, Traced.outcome_tell_bind, Traced.outcome_of]

/-- A text is never blamed for its encoding. -/
theorem parse_ne_encoding : parse path text ≠ .error (.encoding place fault) := by
  rw [Ne, parse_eq_error_iff]
  exact fun h => nomatch h.2

/-- Bytes are blamed for their encoding by the first fault that they have. -/
theorem isFirst_of_ofBytes (h : ofBytes path bytes = .error (.encoding place fault)) :
    place = path ∧ fault.IsFirst bytes := by
  rcases ofBytes_eq_error_iff.1 h with ⟨fault', hd, he⟩ | ⟨text, -, -, he⟩
  · cases he
    exact ⟨rfl, Utf8.isFirst_of_decode_eq_error hd⟩
  · cases he

/-- **Loading tells bytes that spell a text from those that do not.** The bytes of a file that
can be read are blamed for their encoding exactly if they spell no text, and then by the first
fault that they have: its index is the length of the longest beginning that spells a text, and
its length says how much of an encoding stands there. Bytes that spell a text are loaded as the
text is parsed, with the same path. -/
theorem load_classifies_bytes (h : files path = .ok bytes) :
    ((∃ fault, (load files path).outcome = .error (.encoding path fault)) ↔
      ∀ text, bytes ≠ Utf8.encode text) ∧
    (∀ text, bytes = Utf8.encode text → (load files path).outcome = parse path text) ∧
    ∀ place fault, (load files path).outcome = .error (.encoding place fault) →
      place = path ∧ fault.IsFirst bytes := by
  rw [outcome_load_of_read h]
  refine ⟨⟨?_, exists_ofBytes_eq_encoding path⟩, ?_, fun place fault => isFirst_of_ofBytes⟩
  · rintro ⟨fault, hf⟩ text rfl
    rw [ofBytes_encode] at hf
    exact parse_ne_encoding hf
  · rintro text rfl
    exact ofBytes_encode path text

/-- Two files that start with a header that is never closed. Half of a surrogate pair stands behind
it in the one, and three bytes of an encoding of four in the other. -/
def brokenFiles : Files := Files.ofList [
  (.ofString "surrogate", .ok (Utf8.encode "[a" ++ [0xED, 0xA0, 0x80])),
  (.ofString "unfinished", .ok (Utf8.encode "[a" ++ [0xF0, 0x9F, 0x98]))]

/-- Both files are blamed for their encoding, although neither of them starts like a document. A
single byte is at fault in the first one, as no encoding goes on after it as the file does. -/
theorem load_brokenFiles :
    (∀ text, Utf8.encode "[a" ++ [0xED, 0xA0, 0x80] ≠ Utf8.encode text) ∧
      Utf8.Fault.IsFirst ⟨2, some 1⟩ (Utf8.encode "[a" ++ [0xED, 0xA0, 0x80]) ∧
      Utf8.Fault.IsFirst ⟨2, none⟩ (Utf8.encode "[a" ++ [0xF0, 0x9F, 0x98]) := by
  have hs : (load brokenFiles (.ofString "surrogate")).outcome =
      .error (.encoding (.ofString "surrogate") ⟨2, some 1⟩) := rfl
  have hu : (load brokenFiles (.ofString "unfinished")).outcome =
      .error (.encoding (.ofString "unfinished") ⟨2, none⟩) := rfl
  obtain ⟨classified, -, first⟩ := load_classifies_bytes (show brokenFiles (.ofString "surrogate") =
    .ok (Utf8.encode "[a" ++ [0xED, 0xA0, 0x80]) from rfl)
  obtain ⟨-, -, first'⟩ := load_classifies_bytes (show brokenFiles (.ofString "unfinished") =
    .ok (Utf8.encode "[a" ++ [0xF0, 0x9F, 0x98]) from rfl)
  exact ⟨classified.1 ⟨_, hs⟩, (first _ _ hs).2, (first' _ _ hu).2⟩

end Manifest

end WorkspaceFacts
