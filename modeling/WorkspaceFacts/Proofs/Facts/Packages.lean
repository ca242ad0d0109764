import WorkspaceFacts.Proofs.Facts.FirstFault

/-!
# Lists of packages

A report is built package by package, and what a package adds to it depends on that package and on
the workspace. So the report on two lists of packages, one after the other, is put together from
the reports on each of them, and packages in another order have their versions in that order
(`WorkspaceFacts.Report.ofManifests_distributes`). The lints are those of the workspace and come
last: the first package without a version is blamed before them.
-/

namespace WorkspaceFacts

/-! ### Work on lists -/

namespace Traced

variable {α β : Type} {work : α → Traced β} {as as' : List α} {bs : List β}

/-- Work on two lists in a row has the results for the first and then those for the second. -/
theorem outcome_each_append_eq_ok_iff : (each work (as ++ as')).outcome = .ok bs ↔
    ∃ bs₁ bs₂, (each work as).outcome = .ok bs₁ ∧ (each work as').outcome = .ok bs₂ ∧
      bs = bs₁ ++ bs₂ := by
  simp only [outcome_each_eq_ok_iff]
  induction as generalizing bs with
  | nil => simp
  | cons a as ih =>
    rw [List.cons_append, List.forall₂_cons_left_iff]
    constructor
    · rintro ⟨b, bs', hb, h, rfl⟩
      obtain ⟨bs₁, bs₂, h₁, h₂, rfl⟩ := ih.1 h
      exact ⟨b :: bs₁, bs₂, .cons hb h₁, h₂, rfl⟩
    · rintro ⟨_, bs₂, h, h₂, rfl⟩
      obtain ⟨b, bs₁, hb, h₁, rfl⟩ := List.forall₂_cons_left_iff.1 h
      exact ⟨b, bs₁ ++ bs₂, hb, ih.2 ⟨bs₁, bs₂, h₁, h₂, rfl⟩, rfl⟩

/-- Work on the same items in another order has the same results. -/
theorem outcome_each_perm (hp : as'.Perm as) (h : (each work as).outcome = .ok bs) :
    ∃ bs', (each work as').outcome = .ok bs' ∧ bs'.Perm bs := by
  simp only [outcome_each_eq_ok_iff] at h ⊢
  induction hp generalizing bs with
  | nil => exact ⟨bs, h, .refl _⟩
  | cons a _ ih =>
    obtain ⟨b, bs₁, hb, h₁, rfl⟩ := List.forall₂_cons_left_iff.1 h
    obtain ⟨bs', h', hperm⟩ := ih h₁
    exact ⟨b :: bs', .cons hb h', hperm.cons b⟩
  | swap a a' as =>
    obtain ⟨b, _, hb, h₁, rfl⟩ := List.forall₂_cons_left_iff.1 h
    obtain ⟨b', bs₂, hb', h₂, rfl⟩ := List.forall₂_cons_left_iff.1 h₁
    exact ⟨b' :: b :: bs₂, .cons hb' (.cons hb h₂), .swap _ _ _⟩
  | trans _ _ ih ih' =>
    obtain ⟨bs₁, h₁, hperm₁⟩ := ih' h
    obtain ⟨bs₂, h₂, hperm₂⟩ := ih h₁
    exact ⟨bs₂, h₂, hperm₂.trans hperm₁⟩

/-- The result at a place is that of the item at the place, and of no other. -/
theorem getElem?_of_outcome_each (h : (each work as).outcome = .ok bs) (i : Nat) :
    bs[i]? = as[i]?.bind fun a => (work a).outcome.toOption := by
  rw [outcome_each_eq_ok_iff] at h
  induction h generalizing i with
  | nil => rfl
  | cons hb _ ih =>
    cases i with
    | zero => simp [hb, Except.toOption]
    | succ i => simpa using ih i

end Traced

/-! ### Reports -/

namespace Report

variable {workspace : Manifest} {packages packages' : List (String × Manifest)}
  {report report' : Report} {e : ManifestError}

/-- The version of a package, under its name. -/
def versionOf (workspace : Manifest) (p : String × Manifest) : Traced PackageVersion := do
  let version ← Version.ofPackage p.2 workspace
  pure ⟨p.1, version⟩

theorem outcome_ofManifests_eq_ok_iff_each : (ofManifests workspace packages).outcome = .ok report ↔
    (Traced.each (versionOf workspace) packages).outcome = .ok report.versions ∧
      (Lint.disabled workspace).outcome = .ok report.disabledLints := by
  rw [ofManifests, Traced.outcome_bind_eq_ok_iff]
  constructor
  · rintro ⟨versions, hv, h⟩
    obtain ⟨lints, hl, h⟩ := Traced.outcome_bind_eq_ok_iff.1 h
    obtain rfl := Except.ok.inj h
    exact ⟨hv, hl⟩
  · rintro ⟨hv, hl⟩
    exact ⟨report.versions, hv, Traced.outcome_bind_eq_ok_iff.2 ⟨report.disabledLints, hl, rfl⟩⟩

/-- All reports on a workspace have the same lints. -/
theorem disabledLints_eq (h : (ofManifests workspace packages).outcome = .ok report)
    (h' : (ofManifests workspace packages').outcome = .ok report') :
    report.disabledLints = report'.disabledLints := by
  obtain ⟨-, hl⟩ := outcome_ofManifests_eq_ok_iff_each.1 h
  obtain ⟨-, hl'⟩ := outcome_ofManifests_eq_ok_iff_each.1 h'
  exact Except.ok.inj (hl.symm.trans hl')

theorem outcome_ofManifests_append (h : (ofManifests workspace packages).outcome = .ok report)
    (h' : (ofManifests workspace packages').outcome = .ok report') :
    (ofManifests workspace (packages ++ packages')).outcome =
      .ok ⟨report.versions ++ report'.versions, report.disabledLints⟩ := by
  obtain ⟨hv, hl⟩ := outcome_ofManifests_eq_ok_iff_each.1 h
  obtain ⟨hv', -⟩ := outcome_ofManifests_eq_ok_iff_each.1 h'
  exact outcome_ofManifests_eq_ok_iff_each.2
    ⟨Traced.outcome_each_append_eq_ok_iff.2 ⟨_, _, hv, hv', rfl⟩, hl⟩

theorem exists_outcome_ofManifests_append_iff :
    (∃ report, (ofManifests workspace (packages ++ packages')).outcome = .ok report) ↔
      (∃ report, (ofManifests workspace packages).outcome = .ok report) ∧
        ∃ report, (ofManifests workspace packages').outcome = .ok report := by
  constructor
  · rintro ⟨report, h⟩
    obtain ⟨hv, hl⟩ := outcome_ofManifests_eq_ok_iff_each.1 h
    obtain ⟨vs, vs', hv, hv', -⟩ := Traced.outcome_each_append_eq_ok_iff.1 hv
    exact ⟨⟨⟨vs, _⟩, outcome_ofManifests_eq_ok_iff_each.2 ⟨hv, hl⟩⟩,
      ⟨vs', _⟩, outcome_ofManifests_eq_ok_iff_each.2 ⟨hv', hl⟩⟩
  · rintro ⟨⟨report, h⟩, report', h'⟩
    exact ⟨_, outcome_ofManifests_append h h'⟩

theorem outcome_ofManifests_perm (hp : packages'.Perm packages)
    (h : (ofManifests workspace packages).outcome = .ok report) :
    ∃ report', (ofManifests workspace packages').outcome = .ok report' ∧
      report'.disabledLints = report.disabledLints ∧ report'.versions.Perm report.versions ∧
      ∀ i j : Nat, packages'[i]? = packages[j]? → report'.versions[i]? = report.versions[j]? := by
  obtain ⟨hv, hl⟩ := outcome_ofManifests_eq_ok_iff_each.1 h
  obtain ⟨versions, hv', hperm⟩ := Traced.outcome_each_perm hp hv
  refine ⟨⟨versions, report.disabledLints⟩, outcome_ofManifests_eq_ok_iff_each.2 ⟨hv', hl⟩, rfl,
    hperm, fun i j hij => ?_⟩
  rw [Traced.getElem?_of_outcome_each hv j, ← hij]
  exact Traced.getElem?_of_outcome_each hv' i

/-- A package that has a version. -/
def HasVersion (workspace : Manifest) (p : String × Manifest) : Prop :=
  ∃ version, (Version.ofPackage p.2 workspace).outcome = .ok version

/-- A package that has no version, by an error. -/
def FailsBy (workspace : Manifest) (e : ManifestError) (p : String × Manifest) : Prop :=
  (Version.ofPackage p.2 workspace).outcome = .error e

theorem hasVersion_or_failsBy (workspace : Manifest) (p : String × Manifest) :
    HasVersion workspace p ∨ ∃ e, FailsBy workspace e p := by
  rw [HasVersion]
  rcases h : (Version.ofPackage p.2 workspace).outcome with e | version
  · exact .inr ⟨e, h⟩
  · exact .inl ⟨version, rfl⟩

/-- Packages have versions, or there is a first one that has none. -/
theorem forall_hasVersion_or_first (workspace : Manifest) (packages : List (String × Manifest)) :
    (∀ p ∈ packages, HasVersion workspace p) ∨
      ∃ e, First (HasVersion workspace) (FailsBy workspace e) packages := by
  induction packages with
  | nil => exact .inl (List.forall_mem_nil _)
  | cons p packages ih =>
    simp only [List.forall_mem_cons, first_cons]
    rcases hasVersion_or_failsBy workspace p with hp | ⟨e, he⟩
    · rcases ih with h | ⟨e, he⟩
      · exact .inl ⟨hp, h⟩
      · exact .inr ⟨e, .inr ⟨hp, he⟩⟩
    · exact .inr ⟨e, .inl he⟩

/-- A list of packages fails by its first package without a version, and only a list in which
there is none by the lints. -/
theorem outcome_ofManifests_eq_error_iff_first :
    (ofManifests workspace packages).outcome = .error e ↔
      First (HasVersion workspace) (FailsBy workspace e) packages ∨
        (∀ p ∈ packages, HasVersion workspace p) ∧
          (Lint.disabled workspace).outcome = .error e := by
  simp only [outcome_ofManifests_eq_error_iff, ← Version.outcome_ofPackage_eq_ok_iff,
    ← Version.outcome_ofPackage_eq_error_iff, ← Lint.outcome_disabled_eq_error_iff]
  rfl

theorem First.not_forall_hasVersion
    (h : First (HasVersion workspace) (FailsBy workspace e) packages) :
    ¬∀ p ∈ packages, HasVersion workspace p := by
  obtain ⟨before, p, after, rfl, -, hp⟩ := h
  intro hall
  obtain ⟨version, hv⟩ := hall p (by simp)
  cases hv.symm.trans hp

/-- **Building a report distributes over the list of packages.** Two lists in a row have a report
exactly if both of them have, with the same lints; it has the versions of the first and then those
of the second, and its lines are these versions and then the one line of the lints. If some
package has no version, the error is that of the first one of the list, whatever the lints are;
otherwise the list fails exactly as the lints do. And the list in another order has a report with
the same lints and the same versions, which stand where their packages stand. -/
theorem ofManifests_distributes (workspace : Manifest) :
    (∀ xs ys,
      ((∃ report, (ofManifests workspace (xs ++ ys)).outcome = .ok report) ↔
        (∃ report, (ofManifests workspace xs).outcome = .ok report) ∧
          ∃ report, (ofManifests workspace ys).outcome = .ok report) ∧
      ∀ report₁ report₂, (ofManifests workspace xs).outcome = .ok report₁ →
        (ofManifests workspace ys).outcome = .ok report₂ →
        report₁.disabledLints = report₂.disabledLints ∧
          ∃ report, (ofManifests workspace (xs ++ ys)).outcome = .ok report ∧
            report.versions = report₁.versions ++ report₂.versions ∧
            report.disabledLints = report₁.disabledLints ∧
            report.lines = report₁.versions.map (·.version) ++ report₂.versions.map (·.version) ++
              [DisabledLint.displayAll report₁.disabledLints]) ∧
    (∀ packages, (∃ p ∈ packages, ¬HasVersion workspace p) →
      ∃ e, First (HasVersion workspace) (FailsBy workspace e) packages ∧
        (ofManifests workspace packages).outcome = .error e) ∧
    (∀ packages, (∀ p ∈ packages, HasVersion workspace p) → ∀ e,
      (ofManifests workspace packages).outcome = .error e ↔
        (Lint.disabled workspace).outcome = .error e) ∧
    ∀ packages packages' report, packages'.Perm packages →
      (ofManifests workspace packages).outcome = .ok report →
      ∃ report', (ofManifests workspace packages').outcome = .ok report' ∧
        report'.disabledLints = report.disabledLints ∧ report'.versions.Perm report.versions ∧
        ∀ i j : Nat, packages'[i]? = packages[j]? →
          report'.versions[i]? = report.versions[j]? := by
  refine ⟨fun xs ys => ⟨exists_outcome_ofManifests_append_iff, fun report₁ report₂ h₁ h₂ => ?_⟩,
    fun packages hp => ?_, fun packages hall e => ?_,
    fun packages packages' report => outcome_ofManifests_perm⟩
  · refine ⟨disabledLints_eq h₁ h₂, _, outcome_ofManifests_append h₁ h₂, rfl, rfl, ?_⟩
    rw [lines, List.map_append]
  · obtain ⟨p, hmem, hp⟩ := hp
    rcases forall_hasVersion_or_first workspace packages with hall | ⟨e, he⟩
    · exact absurd (hall p hmem) hp
    · exact ⟨e, he, outcome_ofManifests_eq_error_iff_first.2 (.inl he)⟩
  · rw [outcome_ofManifests_eq_error_iff_first, and_iff_right hall]
    exact or_iff_right fun h => First.not_forall_hasVersion h hall

/-- A workspace that disables a lint of each group. -/
def lintingWorkspace : Manifest :=
  ⟨.ofString "ws/Cargo.toml", [("workspace", .table [("lints", .table
    [("clippy", .table [("b", .scalar (.string "allow")), ("c", .scalar (.string "warn"))]),
      ("rust", .table [("a", .scalar (.string "allow"))])])])]⟩

/-- A package with its version. -/
def versionedPackage (name version : String) : String × Manifest :=
  (name, ⟨.ofString name, [("package", .table [("version", .scalar (.string version))])]⟩)

/-- Two packages have the lines of the one, of the other and of the lints, and the versions change
places with the packages. In a workspace without lints a package without a version is blamed for
it. -/
theorem ofManifests_lintingWorkspace :
    (∃ report, (ofManifests lintingWorkspace
        ([versionedPackage "osi" "2"] ++ [versionedPackage "tmp" ""])).outcome = .ok report ∧
      report.lines = ["2", "", "clippy::b,clippy::a"]) ∧
    (∃ report, (ofManifests lintingWorkspace
        [versionedPackage "tmp" "", versionedPackage "osi" "2"]).outcome = .ok report ∧
      report.versions[0]? = some ⟨"tmp", ""⟩ ∧
      report.disabledLints = [⟨"clippy", "b"⟩, ⟨"rust", "a"⟩]) ∧
    ∃ e, First (HasVersion ⟨.ofString "ws", []⟩) (FailsBy ⟨.ofString "ws", []⟩ e)
        [versionedPackage "osi" "2", ("sys", ⟨.ofString "sys", []⟩)] ∧
      (ofManifests ⟨.ofString "ws", []⟩
        [versionedPackage "osi" "2", ("sys", ⟨.ofString "sys", []⟩)]).outcome = .error e := by
  obtain ⟨append, -, -, perm⟩ := ofManifests_distributes lintingWorkspace
  obtain ⟨-, first, -⟩ := ofManifests_distributes ⟨.ofString "ws", []⟩
  have hosi : (ofManifests lintingWorkspace [versionedPackage "osi" "2"]).outcome =
      .ok ⟨[⟨"osi", "2"⟩], [⟨"clippy", "b"⟩, ⟨"rust", "a"⟩]⟩ := rfl
  have htmp : (ofManifests lintingWorkspace [versionedPackage "tmp" ""]).outcome =
      .ok ⟨[⟨"tmp", ""⟩], [⟨"clippy", "b"⟩, ⟨"rust", "a"⟩]⟩ := rfl
  obtain ⟨-, report, h, hversions, hlints, hlines⟩ := (append _ _).2 _ _ hosi htmp
  obtain ⟨report', h', hlints', -, hplaces⟩ := perm _
    [versionedPackage "tmp" "", versionedPackage "osi" "2"] _ (.swap _ _ _) h
  have htop : report'.versions[0]? = some ⟨"tmp", ""⟩ := by
    rw [hplaces 0 1 rfl, hversions]
    rfl
  have hsys : ¬HasVersion ⟨.ofString "ws", []⟩ ("sys", ⟨.ofString "sys", []⟩) := by
    rintro ⟨version, hv⟩
    cases hv
  exact ⟨⟨report, h, hlines⟩, ⟨report', h', htop, hlints'.trans hlints⟩,
    first _ ⟨_, .tail _ (.head _), hsys⟩⟩

end Report

end WorkspaceFacts
