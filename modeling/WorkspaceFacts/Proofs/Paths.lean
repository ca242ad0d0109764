import Mathlib.Data.List.Infix
import WorkspaceFacts.Path
import WorkspaceFacts.Proofs.Text.Encoding

/-!
# Paths below a root

Joining two paths looks at three things: whether the right one is absolute, whether the left one
is empty, and whether it ends in a separator. The last two of them matter only for what stands in
front of a component, the **stem** of a path (`WorkspaceFacts.Path.stem`): its bytes, and a
separator behind them unless there is one or nothing is there. A relative path is joined by
putting it behind the stem, and the stem of a join is the one stem behind the other
(`WorkspaceFacts.Path.stem_join`). So all laws of joining are laws of appending.

The places of the manifests are joins, and they lie below the root whatever bytes it has
(`WorkspaceFacts.Layout.manifests_lie_below_root`).
-/

namespace WorkspaceFacts

/-! ### Joining -/

namespace Path

variable {a b c : Path}

/-- What stands in front of a component that is joined to the path. -/
def stem (p : Path) : Bytes := if p.isOpen then p.bytes else p.bytes ++ [separator]

theorem stem_of_isOpen (h : a.isOpen = true) : a.stem = a.bytes := by
  rw [stem, if_pos h]

theorem stem_of_not_isOpen (h : a.isOpen = false) : a.stem = a.bytes ++ [separator] := by
  rw [stem, if_neg (Bool.not_eq_true _ ▸ h)]

/-- The empty path, and every path that ends in a separator, is its own stem. -/
theorem isOpen_stem (a : Path) : (⟨a.stem⟩ : Path).isOpen = true := by
  cases h : a.isOpen with
  | true => rwa [stem_of_isOpen h]
  | false => simp [stem_of_not_isOpen h, isOpen]

theorem prefix_stem (a : Path) : a.bytes <+: a.stem := by
  cases h : a.isOpen with
  | true => rw [stem_of_isOpen h]
  | false => exact stem_of_not_isOpen h ▸ List.prefix_append _ _

theorem join_of_isAbsolute (h : b.isAbsolute = true) : a.join b = b := by
  rw [join, if_pos h]

/-- **A relative path is put behind the stem.** -/
theorem join_of_relative (h : b.isAbsolute = false) : a.join b = ⟨a.stem ++ b.bytes⟩ := by
  rw [join, if_neg (Bool.not_eq_true _ ▸ h), stem]
  split
  · rfl
  · rw [List.append_assoc, List.singleton_append]

/-- Of the path on the left nothing but its stem is seen. -/
theorem join_congr (h : a.stem = b.stem) (c : Path) : a.join c = b.join c := by
  cases hc : c.isAbsolute with
  | true => rw [join_of_isAbsolute hc, join_of_isAbsolute hc]
  | false => rw [join_of_relative hc, join_of_relative hc, h]

/-- Whether a path starts with a separator can be told from its stem, as the stem of the empty
path is empty. -/
theorem isAbsolute_stem_append (a : Path) (h : b.isAbsolute = false) :
    (⟨a.stem ++ b.bytes⟩ : Path).isAbsolute = a.isAbsolute := by
  obtain ⟨bytes⟩ := a
  cases bytes with
  | nil => exact h
  | cons x xs =>
    have hstem : (⟨x :: xs⟩ : Path).stem = x :: (⟨x :: xs⟩ : Path).stem.tail := by
      rw [stem]
      split <;> rfl
    rw [isAbsolute, hstem]
    rfl

/-- A relative path leads nowhere else than from where one is. -/
theorem isAbsolute_join (a : Path) (h : b.isAbsolute = false) :
    (a.join b).isAbsolute = a.isAbsolute := by
  rw [join_of_relative h, isAbsolute_stem_append a h]

/-- **The stem of a join is the one stem behind the other.** -/
theorem stem_join (a : Path) (h : b.isAbsolute = false) : (a.join b).stem = a.stem ++ b.stem := by
  rw [join_of_relative h]
  obtain ⟨bytes⟩ := b
  cases bytes with
  | nil =>
    have hopen := isOpen_stem a
    rw [List.append_nil, stem_of_isOpen hopen]
    exact (List.append_nil _).symm
  | cons x xs =>
    -- The last byte is that of the path on the right.
    have hlast : (⟨a.stem ++ x :: xs⟩ : Path).isOpen = (⟨x :: xs⟩ : Path).isOpen := by
      have hne : (a.stem ++ x :: xs).isEmpty = false :=
        List.isEmpty_eq_false_iff.2 (List.append_ne_nil_of_right_ne_nil _ (List.cons_ne_nil x xs))
      rw [isOpen, isOpen, hne, List.getLast?_append_of_ne_nil _ (List.cons_ne_nil x xs)]
      rfl
    cases hopen : (⟨x :: xs⟩ : Path).isOpen with
    | true => rw [stem_of_isOpen hopen, stem_of_isOpen (hlast.trans hopen)]
    | false =>
      rw [stem_of_not_isOpen hopen, stem_of_not_isOpen (hlast.trans hopen), List.append_assoc]

/-- **Joining is associative.** -/
theorem join_assoc (a b c : Path) : (a.join b).join c = a.join (b.join c) := by
  cases hc : c.isAbsolute with
  | true => rw [join_of_isAbsolute hc, join_of_isAbsolute hc, join_of_isAbsolute hc]
  | false =>
    have hbc : (b.join c).isAbsolute = b.isAbsolute := isAbsolute_join b hc
    cases hb : b.isAbsolute with
    | true => rw [join_of_isAbsolute hb, join_of_isAbsolute (hbc.trans hb)]
    | false =>
      rw [join_of_relative hc, stem_join a hb, join_of_relative (hbc.trans hb),
        join_of_relative hc, List.append_assoc]

theorem empty_join (a : Path) : join ⟨[]⟩ a = a := by
  cases h : a.isAbsolute with
  | true => exact join_of_isAbsolute h
  | false => exact join_of_relative h

theorem prefix_join (a : Path) (h : b.isAbsolute = false) : a.bytes <+: (a.join b).bytes := by
  rw [join_of_relative h]
  exact (prefix_stem a).trans (List.prefix_append _ _)

/-- A separator at the end of a path that has none makes no difference to what is joined to
it. -/
theorem stem_append_separator {bytes : Bytes} (hne : bytes ≠ [])
    (h : bytes.getLast? ≠ some separator) :
    (⟨bytes ++ [separator]⟩ : Path).stem = (⟨bytes⟩ : Path).stem := by
  have hopen : (⟨bytes⟩ : Path).isOpen = false := by simp [isOpen, hne, h]
  rw [stem_of_not_isOpen hopen, stem_of_isOpen (by simp [isOpen])]

/-! ### Paths that are spelled by texts -/

/-- The byte of a separator stands for a slash and for nothing else. -/
theorem isAbsolute_ofString {text : String} :
    (ofString text).isAbsolute = true ↔ text.toList.head? = some '/' := by
  rw [ofString, Utf8.encode, isAbsolute, beq_iff_eq]
  cases text.toList with
  | nil => simp
  | cons c cs =>
    rw [List.flatMap_cons, List.head?_cons, Option.some.injEq]
    constructor
    · intro h
      have hne : String.utf8EncodeChar c ≠ [] := String.utf8EncodeChar_ne_nil
      rw [List.head?_append_of_ne_nil _ hne] at h
      exact (Utf8.eq_of_mem_utf8EncodeChar (by decide) (List.mem_of_head? h)).symm
    · rintro rfl
      rfl

theorem isAbsolute_ofString_eq_false {text : String} (h : text.toList.head? ≠ some '/') :
    (ofString text).isAbsolute = false :=
  Bool.eq_false_iff.2 fun ha => h (isAbsolute_ofString.1 ha)

/-- The stem of a name without slashes is the name and a separator, unless the name is empty. -/
theorem stem_ofString {text : String} (h : '/' ∉ text.toList) : (ofString text).stem =
    if Utf8.encode text = [] then [] else Utf8.encode text ++ [separator] := by
  have hlast : (Utf8.encode text).getLast? ≠ some separator := fun hl =>
    Utf8.not_mem_encode (c := '/') (by decide) h (List.mem_of_getLast? hl)
  split
  · next hnil => rw [ofString, hnil]; rfl
  · next hne => exact stem_of_not_isOpen (by simp [isOpen, ofString, hne, hlast])

/-- A name without slashes can be told from its stem. -/
theorem ofString_stem_injective {text text' : String} (h : '/' ∉ text.toList)
    (h' : '/' ∉ text'.toList) (he : (ofString text).stem = (ofString text').stem) :
    text = text' := by
  refine Utf8.encode_injective ?_
  rw [stem_ofString h, stem_ofString h'] at he
  split at he <;> split at he
  · next hnil hnil' => rw [hnil, hnil']
  · exact absurd he.symm (by simp)
  · exact absurd he (by simp)
  · exact List.append_cancel_right he

end Path

/-! ### The places of the manifests -/

namespace Layout

variable {layout : Layout} {package : String}

/-- The place of the manifest of a package, seen from the root. -/
def packagePlace (package : String) : Path :=
  (packageDirectory.join (.ofString package)).join manifestName

theorem isAbsolute_manifestName : manifestName.isAbsolute = false := by decide

theorem packageManifest_eq (layout : Layout) (package : String) :
    layout.packageManifest package = layout.root.join (packagePlace package) := by
  rw [packageManifest, packagePlace, Path.join_assoc, Path.join_assoc, Path.join_assoc]

theorem isAbsolute_packagePlace (h : package.toList.head? ≠ some '/') :
    (packagePlace package).isAbsolute = false := by
  rw [packagePlace, Path.isAbsolute_join _ isAbsolute_manifestName,
    Path.isAbsolute_join _ (Path.isAbsolute_ofString_eq_false h)]
  decide

theorem bytes_packagePlace (h : package.toList.head? ≠ some '/') : (packagePlace package).bytes =
    Utf8.encode "lib/" ++ ((Path.ofString package).stem ++ Utf8.encode "Cargo.toml") := by
  rw [packagePlace, Path.join_of_relative isAbsolute_manifestName,
    Path.stem_join _ (Path.isAbsolute_ofString_eq_false h), List.append_assoc]
  rfl

theorem head?_ne_of_not_mem (h : '/' ∉ package.toList) : package.toList.head? ≠ some '/' :=
  fun hh => h (List.mem_of_head? hh)

theorem packageManifest_injOn (layout : Layout) {package package' : String}
    (h : '/' ∉ package.toList) (h' : '/' ∉ package'.toList)
    (he : layout.packageManifest package = layout.packageManifest package') :
    package = package' := by
  have hp := head?_ne_of_not_mem h
  have hp' := head?_ne_of_not_mem h'
  rw [packageManifest_eq, packageManifest_eq, Path.join_of_relative (isAbsolute_packagePlace hp),
    Path.join_of_relative (isAbsolute_packagePlace hp'), bytes_packagePlace hp,
    bytes_packagePlace hp'] at he
  have hstem := List.append_cancel_left (List.append_cancel_left (Path.mk.inj he))
  exact Path.ofString_stem_injective h h' (List.append_cancel_right hstem)

/-- The directory of the packages stands between the root and the manifest of a package. -/
theorem packageManifest_ne_workspaceManifest (layout : Layout)
    (h : package.toList.head? ≠ some '/') :
    layout.packageManifest package ≠ layout.workspaceManifest := by
  intro he
  rw [packageManifest_eq, workspaceManifest, Path.join_of_relative (isAbsolute_packagePlace h),
    Path.join_of_relative isAbsolute_manifestName] at he
  have hbytes := congrArg List.length (List.append_cancel_left (Path.mk.inj he))
  rw [bytes_packagePlace h, List.length_append, List.length_append] at hbytes
  have hlib : (Utf8.encode "lib/").length = 4 := by decide
  have hname : (Utf8.encode "Cargo.toml").length = manifestName.bytes.length := by decide
  omega

/-- **The manifests lie below the root**, whatever bytes it has. Joining is associative and has
the empty path on the left as its unit. So the manifest of a package whose name is relative has
one relative place, which is joined to the root; the bytes of the root come first in the paths
of the manifests, which are relative where the root is. A separator behind the root changes no
path, packages with different names without slashes have different manifests, and none of these
is that of the workspace. Only a package name that starts with a slash leads away from the root,
to a place that does not depend on it. -/
theorem manifests_lie_below_root :
    (∀ a b c : Path, (a.join b).join c = a.join (b.join c)) ∧
    (∀ a : Path, Path.join ⟨[]⟩ a = a) ∧
    (∀ (layout : Layout) (package : String), package.toList.head? ≠ some '/' →
      (packagePlace package).isAbsolute = false ∧
      layout.packageManifest package = layout.root.join (packagePlace package) ∧
      layout.root.bytes <+: layout.workspaceManifest.bytes ∧
      layout.root.bytes <+: (layout.packageManifest package).bytes ∧
      layout.workspaceManifest.isAbsolute = layout.root.isAbsolute ∧
      (layout.packageManifest package).isAbsolute = layout.root.isAbsolute) ∧
    (∀ root : Bytes, root ≠ [] → root.getLast? ≠ some Path.separator →
      workspaceManifest ⟨⟨root ++ [Path.separator]⟩⟩ = workspaceManifest ⟨⟨root⟩⟩ ∧
      ∀ package, packageManifest ⟨⟨root ++ [Path.separator]⟩⟩ package =
        packageManifest ⟨⟨root⟩⟩ package) ∧
    (∀ (layout : Layout) (package package' : String), '/' ∉ package.toList →
      '/' ∉ package'.toList →
      layout.packageManifest package = layout.packageManifest package' → package = package') ∧
    (∀ (layout : Layout) (package : String), package.toList.head? ≠ some '/' →
      layout.packageManifest package ≠ layout.workspaceManifest) ∧
    ∀ (layout layout' : Layout) (package : String), package.toList.head? = some '/' →
      layout.packageManifest package = layout'.packageManifest package := by
  refine ⟨Path.join_assoc, Path.empty_join, fun layout package h => ?_, fun root hne hlast => ?_,
    fun layout _ _ => layout.packageManifest_injOn,
    fun layout _ => layout.packageManifest_ne_workspaceManifest, fun layout layout' package h => ?_⟩
  · have hplace := isAbsolute_packagePlace h
    refine ⟨hplace, layout.packageManifest_eq package,
      Path.prefix_join _ isAbsolute_manifestName, ?_,
      Path.isAbsolute_join _ isAbsolute_manifestName, ?_⟩
    · exact layout.packageManifest_eq package ▸ Path.prefix_join _ hplace
    · rw [packageManifest_eq, Path.isAbsolute_join _ hplace]
  · have hstem := Path.stem_append_separator hne hlast
    refine ⟨Path.join_congr hstem _, fun package => ?_⟩
    rw [packageManifest_eq, packageManifest_eq]
    exact Path.join_congr hstem _
  · have hroot : ∀ layout : Layout,
        layout.packageManifest package = (Path.ofString package).join manifestName := by
      intro layout
      rw [packageManifest, Path.join_of_isAbsolute (Path.isAbsolute_ofString.2 h)]
    rw [hroot layout, hroot layout']

/-- A root that spells no text, with and without a separator behind it; a package without a name,
which is not the package `lib`; and a package name that leads away. -/
theorem manifests_lie_below_rawRoot :
    (Path.join (Path.join ⟨[0xC3]⟩ ⟨[]⟩) (.ofString "x")).bytes = 0xC3 :: Utf8.encode "/x" ∧
      [0xC3] <+: (packageManifest ⟨⟨[0xC3]⟩⟩ "").bytes ∧
      packageManifest ⟨⟨[0xC3, 0x2F]⟩⟩ "" = packageManifest ⟨⟨[0xC3]⟩⟩ "" ∧
      packageManifest ⟨⟨[0xC3]⟩⟩ "" ≠ packageManifest ⟨⟨[0xC3]⟩⟩ "lib" ∧
      packageManifest ⟨⟨[0xC3]⟩⟩ "" ≠ workspaceManifest ⟨⟨[0xC3]⟩⟩ ∧
      packageManifest ⟨⟨[0xC3]⟩⟩ "/a" = packageManifest ⟨⟨[]⟩⟩ "/a" := by
  obtain ⟨assoc, empty, below, slash, distinct, apart, absolute⟩ := manifests_lie_below_root
  refine ⟨?_, (below ⟨⟨[0xC3]⟩⟩ "" (by decide)).2.2.2.1,
    (slash [0xC3] (by decide) (by decide)).2 "", fun h => ?_,
    apart ⟨⟨[0xC3]⟩⟩ "" (by decide), absolute _ _ "/a" (by decide)⟩
  · rw [assoc, empty]
    decide
  · exact absurd (distinct _ _ _ (by decide) (by decide) h) (by decide)

end Layout

end WorkspaceFacts
