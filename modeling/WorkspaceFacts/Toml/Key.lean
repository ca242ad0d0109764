import WorkspaceFacts.Toml.Quotation

/-!
# Keys and key paths

A key is a bare word or a string on one line; a key path is a list of keys with dots
between them. Blanks may stand around every key of a path, and the phrase
`WorkspaceFacts.Toml.keyPath` takes them along.
-/

namespace WorkspaceFacts.Toml

/-- The characters of a bare key. -/
def isBareKeyChar (c : Char) : Bool := c.isAlphanum || c == '-' || c == '_'

/-- Reads a bare key, which has at least one character. -/
def readBareKey (s : List Char) : Option (List Char × List Char) :=
  match s.takeWhile isBareKeyChar with
  | [] => none
  | key => some (key, s.dropWhile isBareKeyChar)

/-- Reads a key, quoted or bare. -/
def readKey (s : List Char) : Option (List Char × List Char) :=
  match s with
  | '"' :: _ => Quotation.readLine s
  | '\'' :: _ => Quotation.readLine s
  | _ => readBareKey s

theorem readBareKey_shorter {s key rest : List Char} (h : readBareKey s = some (key, rest)) :
    rest.length < s.length := by
  unfold readBareKey at h
  have whole := congrArg List.length (List.takeWhile_append_dropWhile (p := isBareKeyChar) (l := s))
  rw [List.length_append] at whole
  split at h
  · simp at h
  · rename_i nonempty
    have := List.length_pos_iff.2 nonempty
    simp only [Option.some.injEq, Prod.mk.injEq] at h
    rw [← h.2]
    omega

theorem readKey_shorter {s key rest : List Char} (h : readKey s = some (key, rest)) :
    rest.length < s.length := by
  unfold readKey at h
  split at h
  · exact Quotation.readLine_shorter h
  · exact Quotation.readLine_shorter h
  · exact readBareKey_shorter h

/-- Reads the keys of a path. -/
def readPath (s : List Char) : Option (List String × List Char) :=
  match _hk : readKey (skipBlanks s) with
  | none => none
  | some (key, s₁) =>
    match _hd : skipBlanks s₁ with
    | '.' :: s₂ =>
      match readPath s₂ with
      | some (keys, rest) => some (String.ofList key :: keys, rest)
      | none => none
    | rest => some ([String.ofList key], rest)
termination_by s.length
decreasing_by
  have := readKey_shorter _hk
  have := skipBlanks_length_le s
  have := skipBlanks_length_le s₁
  simp_all
  omega

theorem readPath_shorter {s rest : List Char} {keys : List String}
    (h : readPath s = some (keys, rest)) : rest.length < s.length := by
  fun_induction readPath s generalizing keys with
  | case1 => simp at h
  | case2 s key s₁ hk s₂ hd keys' rest' hp ih =>
    simp only [Option.some.injEq, Prod.mk.injEq] at h
    have := ih (h.2 ▸ hp)
    have := readKey_shorter hk
    have := skipBlanks_length_le s
    have := skipBlanks_length_le s₁
    simp_all
    omega
  | case3 => simp at h
  | case4 s key s₁ hk hd =>
    have := readKey_shorter hk
    have := skipBlanks_length_le s
    have := skipBlanks_length_le s₁
    simp_all
    omega

/-- A path has fewer keys than this. -/
def keyLimit : Nat := 80

/-- **A key path**, with the blanks around its keys. -/
def keyPath : Phrase (List String) where
  read s :=
    match readPath s with
    | some (keys, rest) => if keys.length < keyLimit then some (keys, rest) else none
    | none => none
  shorter h := by
    split at h
    · next hp =>
      split at h
      · simp at h
        obtain ⟨rfl, rfl⟩ := h
        exact readPath_shorter hp
      · simp at h
    · simp at h

end WorkspaceFacts.Toml
