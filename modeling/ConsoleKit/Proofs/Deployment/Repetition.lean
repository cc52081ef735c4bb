import ConsoleKit.Proofs.Deployment.Counting
import ConsoleKit.Proofs.Deployment.Inventory

/-!
# Deploying again

A deployment that has succeeded can be repeated, and then copies the same files and changes nothing (`deploy_again`): what
was brought to a place is brought there once more (`brought_brought`). The source has to be resolved, since a link of it that
leads nowhere at first may lead to a copy the next time.
-/

namespace ConsoleKit

open FileSystem

namespace Deployment

variable {files : FileSystem} {order : ListingOrder} {source target : Path} {trace trace' : List (List FileName)}
  {progress progress' : Progress} {report : Report}

/-- To bring the same to a place twice is to bring it there once. -/
theorem brought_brought (old : Option Node) (entry : Option Entry) (around : Option Node) :
    brought (brought old entry around) entry around = brought old entry around := by
  cases entry with
  | none => rfl
  | some entry =>
    cases entry with
    | directory mode =>
      cases old with
      | some node => rfl
      | none =>
        show brought (madeIn around) _ around = madeIn around
        cases hmade : madeIn around with
        | none => exact hmade
        | some node => rfl
    | file data =>
      cases old with
      | none => rfl
      | some node => cases node <;> rfl
    | link path => rfl
    | device => rfl

/-- A source that has been deployed is deployed once more: as many files are copied, and nothing changes. -/
theorem Finishes.again (h : Finishes files source target trace progress) (hprovided : Provided progress.files target)
    (hresolved : Resolved files source) (h' : Finishes progress.files source target trace' progress') :
    progress'.files = progress.files ∧ progress'.report = ⟨progress.report.copiedFiles, 0⟩ := by
  have hsep := h.underway.separated
  have hplaces : ∀ place, progress'.files.bare? place = progress.files.bare? place := by
    intro place
    by_cases hplace : ∃ names, (files.withDirectory target).Below target names place
    · obtain ⟨names, hbelow⟩ := hplace
      rw [h.bare?_after hprovided h' hsep hresolved hbelow, brought_brought, ← h.bare?_eq_brought h'.underway.grows hbelow]
    · have hnot : ∀ names, ¬ (files.withDirectory target).Below target names place := fun names h => hplace ⟨names, h⟩
      rw [h.bare?_elsewhere hprovided h' hnot, h.bare?_of_not_leads fun names hbelow => absurd hbelow (hnot names)]
  obtain ⟨hshared, hworking⟩ := h.kept_after hprovided h'
  have hfiles : progress'.files = progress.files :=
    eq_of_bare? hplaces (hshared.trans h.confined.shared.symm) (hworking.trans h.confined.workingDirectory.symm)
  refine ⟨hfiles, congrArg₂ Report.mk ?_ ?_⟩
  · exact h'.copiedFiles_eq_of_alike h (h.alike_after hsep hresolved).symm
  · have hcount := h'.handles.encard_newDirectories h'.underway.plain
    rw [begun_of_provided hprovided, hfiles, newDirectories_self, Set.encard_empty, Nat.cast_zero, add_zero] at hcount
    exact_mod_cast hcount.symm

/-- **A deployment can be repeated.** If it has succeeded, and no link of its source led nowhere, it succeeds again, in
whatever order directories are then listed: it copies as many files, makes no directory, and leaves the file system exactly
as it was. -/
theorem deploy_again (order order' : ListingOrder) (hsep : files.Separated source target)
    (hplain : (files.withDirectory target).PlainBelow target) (hresolved : Resolved files source)
    (h : (files.deploy order source target).result = .ok report) :
    (files.deploy order source target).files.deploy order' source target =
      ⟨.ok ⟨report.copiedFiles, 0⟩, (files.deploy order source target).files⟩ := by
  obtain ⟨trace, progress, hfinishes, hprovide, hdeploy⟩ := finishes_of_ok hsep hplain hresolved h
  have hprovided := hfinishes.provided hprovide
  rw [hdeploy, Except.ok.injEq] at h
  rw [hdeploy]
  obtain ⟨trace', progress', hfinishes', hdeploy'⟩ := hfinishes.next hprovided order' hsep hresolved hfinishes.directory
    (fun _ _ _ => rfl) fun _ _ _ hstat => hfinishes.clear hstat
  obtain ⟨hfiles, hreport⟩ := hfinishes.again hprovided hresolved hfinishes'
  show progress.files.deploy order' source target = _
  rw [hdeploy', hfiles, hreport, h]

/-! ## A plain source -/

theorem isInventory_twoDirectories : isInventory twoDirectories (.ofString "s") [[]] = true := by
  cbv

theorem deploy_again_twoDirectories : twoDirectories.Separated (.ofString "s") (.ofString "t") ∧
    (twoDirectories.withDirectory (.ofString "t")).PlainBelow (.ofString "t") ∧ Resolved twoDirectories (.ofString "s") ∧
    (twoDirectories.deploy .byName (.ofString "s") (.ofString "t")).result = .ok ⟨1, 0⟩ ∧
    (twoDirectories.deploy .byName (.ofString "s") (.ofString "t")).files.deploy .byName (.ofString "s") (.ofString "t") =
      ⟨.ok ⟨1, 0⟩, (twoDirectories.deploy .byName (.ofString "s") (.ofString "t")).files⟩ := by
  have hresolved := resolved_of_isInventory isInventory_twoDirectories
  have hresult : (twoDirectories.deploy .byName (.ofString "s") (.ofString "t")).result = .ok ⟨1, 0⟩ := by cbv
  exact ⟨separated_twoDirectories, plainBelow_twoDirectories, hresolved, hresult,
    deploy_again .byName .byName separated_twoDirectories plainBelow_twoDirectories hresolved hresult⟩

/-! ## Why the source has to be resolved -/

/-- That a deployment can be repeated, if some separation of source and target sufficed for it. -/
def Repeatable (apart : FileSystem → Path → Path → Prop) : Prop :=
  ∀ (files : FileSystem) (order order' : ListingOrder) (source target : Path) (report : Report), apart files source target →
    (files.deploy order source target).result = .ok report →
    ((files.deploy order source target).files.deploy order' source target).result = .ok ⟨report.copiedFiles, 0⟩ ∧
    ∀ place, ((files.deploy order source target).files.deploy order' source target).files.get? place =
      (files.deploy order source target).files.get? place

/-- A file system with two files, at `s/t/f` and `s/t/t/f`. -/
def nestedFiles : FileSystem :=
  built do
    let files ← FileSystem.empty.writeFile (.ofString "s/t/f") [0x78]
    files.writeFile (.ofString "s/t/t/f") [0x79]

theorem find_detour_nestedFiles : nestedFiles.find detour.directory = .error .notFound := by
  cbv

theorem separatedAtFirst_nestedFiles : nestedFiles.SeparatedAtFirst (.ofString "s/t") detour := by
  have hinventory : isInventory nestedFiles (.ofString "s/t") [[], [targetName]] = true := by cbv
  exact separatedAtFirst_of_isInventory hinventory find_detour_nestedFiles (by cbv)

/-- A deployment may copy more files the next time if a link of the source that led nowhere has come to lead to a copy; and
other data if the target turns out to be around the source once its missing part is made. -/
theorem not_repeatable :
    (¬ Repeatable fun files source target => files.Separated source target ∧
      (files.withDirectory target).PlainBelow target) ∧
    ¬ Repeatable fun files source target => files.SeparatedAtFirst source target ∧ files.PlainBelow target := by
  constructor
  · intro h
    have hplain : (crossLinks.withDirectory (.ofString "t")).PlainBelow (.ofString "t") :=
      plainBelow_made find_target_crossLinks rfl
    obtain ⟨hresult, -⟩ := h crossLinks .byName .byName (.ofString "s") (.ofString "t") _
      ⟨separatedAtFirst_crossLinks.separated find_target_crossLinks, hplain⟩ result_crossLinks
    have hmore : ((crossLinks.deploy .byName (.ofString "s") (.ofString "t")).files.deploy .byName (.ofString "s")
        (.ofString "t")).result = .ok ⟨7, 4⟩ := by cbv
    rw [hmore] at hresult
    cases hresult
  · intro h
    have hresult : (nestedFiles.deploy .byName (.ofString "s/t") detour).result = .ok ⟨2, 3⟩ := by cbv
    obtain ⟨-, hplaces⟩ := h nestedFiles .byName .byName (.ofString "s/t") detour _
      ⟨separatedAtFirst_nestedFiles, plainBelow_of_missing find_detour_nestedFiles⟩ hresult
    have honce : (nestedFiles.deploy .byName (.ofString "s/t") detour).files.get? [fileName, directoryName] =
        some (.file ⟨[0x78], 0o644⟩) := by cbv
    have htwice : ((nestedFiles.deploy .byName (.ofString "s/t") detour).files.deploy .byName (.ofString "s/t")
        detour).files.get? [fileName, directoryName] = some (.file ⟨[0x79], 0o644⟩) := by cbv
    rw [hplaces, honce] at htwice
    cases htwice

end Deployment

end ConsoleKit
