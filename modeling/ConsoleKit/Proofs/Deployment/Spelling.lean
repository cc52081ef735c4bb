import ConsoleKit.Proofs.Deployment.Lockstep
import ConsoleKit.Proofs.Deployment.Provision
import ConsoleKit.Proofs.Deployment.Skeleton

/-!
# The spelling of the target

Two spellings of one target that the system accepts lead to the same directory, if they lead to one, and a deployment into it
is the same then, call by call. They can differ in whether the target is provided at all: a slash or a dot at the end asks for
a directory, and a directory is not made under a path that ends in a dot. So the outcome is the same, but for these two cases
(`deploy_spelling`).
-/

namespace ConsoleKit

open FileSystem

namespace Deployment

variable {files : FileSystem} {order : ListingOrder} {source target target' path path' : Path}

/-! ## Where the spelling matters -/

/-- **Two spellings of a path are provided alike, unless the end of one of them matters.** -/
theorem provideDirectory_spelling (h : path.Same path') (haccepts : checkPath path = .ok () ↔ checkPath path' = .ok ())
    (progress : Progress) :
    (provideDirectory path progress).Matches (fun _ _ => True) (provideDirectory path' progress) ∨
      (DotHinders progress.files path path' ∨ DotHinders progress.files path' path) ∨
      EndHides progress.files path path' ∨ EndHides progress.files path' path := by
  by_cases hempty : path.isEmpty
  · rw [h.eq_of_isEmpty hempty, provideDirectory_of_provided (.inl hempty)]
    exact .inl (.ok trivial progress)
  by_cases hcheck : checkPath path = .ok ()
  · have hcheck' := haccepts.1 hcheck
    have hempty' := not_isEmpty_of_checkPath hcheck'
    by_cases hdirectory' : progress.files.isDirectory path' = true
    · have hdirectory : progress.files.isDirectory path = true := (isDirectory_of_same h haccepts).trans hdirectory'
      rw [provideDirectory_of_provided (.inr (leads_of_isDirectory hdirectory)),
        provideDirectory_of_provided (.inr (leads_of_isDirectory hdirectory'))]
      exact .inl (.ok trivial progress)
    · rcases madeEqually_or_dotHinders h hcheck hcheck' (Bool.eq_false_iff.2 hdirectory') with hmade | hhinders
      · by_cases hleads : progress.files.Leads path ↔ progress.files.Leads path'
        · have hmissing := isMissing_eq (by simp [hempty, hempty']) hleads
          exact .inl (provideDirectory_matches (missingCount_eq hmissing (h.ancestors hcheck hcheck')) hmade)
        · refine .inr (.inr ?_)
          by_cases hpath : progress.files.Leads path
          · exact .inr (endHides_of_leads h.symm hcheck' hpath fun hpath' => hleads (iff_of_true hpath hpath'))
          · exact .inl (endHides_of_leads h hcheck (by_contra fun hpath' => hleads (iff_of_false hpath hpath')) hpath)
      · exact .inr (.inl hhinders)
  · have hempty' : ¬ path'.isEmpty := fun hempty' => hempty (h.symm.eq_of_isEmpty hempty' ▸ hempty')
    obtain ⟨failure, hfail⟩ := provideDirectory_of_not_accepted hempty hcheck progress
    obtain ⟨failure', hfail'⟩ := provideDirectory_of_not_accepted hempty' (fun hcheck' => hcheck (haccepts.2 hcheck')) progress
    rw [hfail, hfail']
    exact .inl (.fail failure failure' progress)

/-! ## Deployments that fail at once -/

/-- Without a directory as its source a deployment fails at once. -/
theorem deploy_without_source (order : ListingOrder) (target : Path) (hsource : files.isDirectory source = false) :
    ∃ failure, files.deploy order source target = ⟨.error failure, files⟩ := by
  have hgoes := deploy_goes files order source target
  generalize files.deploy order source target = outcome at hgoes
  cases hgoes with
  | noSource _ => exact ⟨_, rfl⟩
  | noTarget hdirectory _ | stuck hdirectory _ _ _ | done hdirectory _ _ _ =>
    rw [hsource] at hdirectory
    cases hdirectory

/-- Where the target is not provided, a deployment ends. -/
theorem deploy_of_not_provided (order : ListingOrder) (hsource : files.isDirectory source = true)
    (hnot : ¬ Provided (files.withDirectory target) target) :
    ∃ failure, files.deploy order source target = ⟨.error failure, files.withDirectory target⟩ := by
  have hfails : ∀ {progress}, provideDirectory target ⟨files, ⟨0, 0⟩⟩ ≠ .ok () progress := by
    intro progress hprovide
    have hmeets := provideDirectory_meets target ⟨files, ⟨0, 0⟩⟩
    rw [hprovide] at hmeets
    have hprovided := hmeets.success () rfl
    rw [hmeets.always] at hprovided
    exact hnot hprovided
  have hgoes := deploy_goes files order source target
  generalize files.deploy order source target = outcome at hgoes
  cases hgoes with
  | noSource hnone =>
    rw [hsource] at hnone
    cases hnone
  | noTarget _ _ => exact ⟨_, rfl⟩
  | stuck _ hprovide _ _ | done _ hprovide _ _ => exact absurd hprovide hfails

/-- Nothing is handled in a target that is no directory. -/
theorem Handles.eq_nil {trace : List (List FileName)} {a b : Progress} (h : Handles ⟨source, target⟩ trace a b)
    (hleads : a.files.Leads target) (hnot : a.files.isDirectory target = false) : trace = [] := by
  have hdirectory : target.directory = target := directory_of_find hleads.choose_spec
  refine List.eq_nil_iff_forall_not_mem.2 fun names hmem => ?_
  obtain ⟨front, name, rfl⟩ := (List.eq_nil_or_concat names).resolve_left (h.ne_nil hmem)
  rw [List.concat_eq_append] at hmem
  have hinside : b.files.isDirectory (target.joinAll front).directory = true := h.isDirectory hmem
  have hinside' : b.files.isDirectory target.directory = true := by
    by_cases hne : front = []
    · rwa [hne] at hinside
    · rw [directory_eq_self (by simp [Path.isEmpty_joinAll target hne])] at hinside
      exact isDirectory_directory_of_leads hne (leads_of_isDirectory hinside)
  rw [hdirectory, isDirectory_eq h.runs.grows hleads, hnot] at hinside'
  cases hinside'

/-- A directory with entries is not deployed onto something that is no directory, and nothing changes. -/
theorem deploy_onto_other (order : ListingOrder) (hsource : files.isDirectory source = true) (hlist : files.list source ≠ .ok [])
    (hleads : files.Leads target) (hnot : files.isDirectory target = false) :
    ∃ failure, files.deploy order source target = ⟨.error failure, files⟩ := by
  have hbegun : (begun files target).files = files := withDirectory_of_provided (.inr hleads)
  have hnothing : ∀ {trace progress}, Handles ⟨source, target⟩ trace (begun files target) progress → trace = [] :=
    fun hhandles => hhandles.eq_nil (hbegun.symm ▸ hleads) (hbegun.symm ▸ hnot)
  have hgoes := deploy_goes files order source target
  generalize files.deploy order source target = outcome at hgoes
  cases hgoes with
  | noSource _ => exact ⟨_, rfl⟩
  | noTarget _ hprovide =>
    rw [provideDirectory_of_provided (.inr hleads)] at hprovide
    cases hprovide
  | stuck _ _ hhandles _ =>
    obtain rfl := hnothing hhandles
    cases hhandles
    exact ⟨_, congrArg _ hbegun⟩
  | done _ _ hhandles hcomplete =>
    -- An entry that is listed has been handled.
    obtain ⟨all, hall⟩ := list_of_isDirectory hsource
    obtain ⟨name, rest, rfl⟩ := List.exists_cons_of_ne_nil fun hnil : all = [] => hlist (hnil ▸ hall)
    obtain ⟨listed, ⟨middle, hbefore, -, hlist'⟩, hiff⟩ := hcomplete.listed [] (.inl (.head _))
    have hname : name ∈ listed := mem_list_grows (hbegun ▸ hbefore.grows) hall hlist' (.head rest)
    have hmem := (hiff name).2 hname
    rw [hnothing hhandles] at hmem
    cases hmem

/-! ## The whole deployment -/

/-- Two deployments come to the same: both succeed, with the same report, or both fail, and the file system is the same
afterwards. -/
def SameOutcome (outcome outcome' : Outcome) : Prop :=
  (∀ report, outcome.result = .ok report ↔ outcome'.result = .ok report) ∧ outcome.files = outcome'.files

theorem SameOutcome.symm {outcome outcome' : Outcome} (h : SameOutcome outcome outcome') : SameOutcome outcome' outcome :=
  ⟨fun report => (h.1 report).symm, h.2.symm⟩

theorem sameOutcome_of_error {failure failure' : Failure} : SameOutcome ⟨.error failure, files⟩ ⟨.error failure', files⟩ :=
  ⟨fun _ => by simp, rfl⟩

/-- Where two spellings of the target are provided alike, the deployments come to the same. -/
theorem sameOutcome_of_matches (h : target.Same target')
    (haccepts : AcceptsAlike (files.deploy order source target).files source target target')
    (hsource : files.isDirectory source = true)
    (hprovide : (provideDirectory target ⟨files, ⟨0, 0⟩⟩).Matches (fun _ _ => True) (provideDirectory target' ⟨files, ⟨0, 0⟩⟩)) :
    SameOutcome (files.deploy order source target) (files.deploy order source target') := by
  obtain ⟨mode, hstat⟩ := isDirectory_iff.1 hsource
  have hmatches : (start order source target ⟨files, ⟨0, 0⟩⟩).Matches (fun _ _ => True) (start order source target' ⟨files, ⟨0, 0⟩⟩) := by
    unfold FileSystem.deploy at haccepts
    unfold start at haccepts ⊢
    rw [hstat] at haccepts ⊢
    refine hprovide.andThen fun _ _ progress hfirst _ => descend_matches h haccepts order _ [] progress ?_
    simp only [hfirst, Attempt.ok_andThen]
    exact .refl _
  unfold FileSystem.deploy
  generalize start order source target ⟨files, ⟨0, 0⟩⟩ = attempt at hmatches
  generalize start order source target' ⟨files, ⟨0, 0⟩⟩ = attempt' at hmatches
  cases hmatches with
  | ok _ progress => exact ⟨fun _ => .rfl, rfl⟩
  | fail failure failure' progress => exact sameOutcome_of_error

/-- The first spelling of a target stops a deployment that the second one lets begin: it ends in a dot that hinders the
directory from being made, or it hides something onto which an empty directory is deployed. -/
def Distinguishes (files : FileSystem) (source path path' : Path) : Prop :=
  files.isDirectory source = true ∧ DotHinders files path path' ∨ files.list source = .ok [] ∧ EndHides files path path'

/-- A target that ends in a dot is not provided where the dot hinders that. -/
theorem not_provided_of_dotHinders (h : target.Same target') (hhinders : DotHinders files target target') :
    ¬ Provided (files.withDirectory target) target := by
  rintro (hempty | hleads)
  · have hdot := hhinders.not_endsInDot
    rw [h.eq_of_isEmpty hempty, hhinders.endsInDot] at hdot
    cases hdot
  · have hdirectory := isDirectory_of_asksForDirectory hleads (by simp [Path.asksForDirectory, hhinders.endsInDot])
    rw [hhinders.unmade] at hdirectory
    cases hdirectory

section Spelling

variable (h : target.Same target') (haccepts : checkPath target = .ok () ↔ checkPath target' = .ok ())

include h haccepts

/-- A spelling that asks for a directory provides none where the other spelling leads to something else. -/
theorem withDirectory_of_endHides (hhides : EndHides files target target') :
    files.withDirectory target = files ∧ ¬ Provided files target := by
  have hcheck' := checkPath_of_leads hhides.leads
  have hwith' : files.withDirectory target' = files := withDirectory_of_provided (.inr hhides.leads)
  constructor
  · rcases madeEqually_or_dotHinders h (haccepts.2 hcheck') hcheck' hhides.not_directory with ⟨hfiles, -⟩ | hhinders | hhinders
    · exact hfiles.trans hwith'
    · have hmade := hhinders.made
      rw [hwith', hhides.not_directory] at hmade
      cases hmade
    · have hasks := hhides.not_asks
      simp [Path.asksForDirectory, hhinders.endsInDot] at hasks
  · rintro (hempty | hleads)
    · exact not_isEmpty_of_checkPath (haccepts.2 hcheck') hempty
    · have hdirectory := isDirectory_of_asksForDirectory hleads hhides.asks
      rw [isDirectory_of_same h haccepts, hhides.not_directory] at hdirectory
      cases hdirectory

theorem deploy_of_endHides (order : ListingOrder) (hsource : files.isDirectory source = true)
    (hhides : EndHides files target target') : ∃ failure, files.deploy order source target = ⟨.error failure, files⟩ := by
  obtain ⟨hwith, hnot⟩ := withDirectory_of_endHides h haccepts hhides
  have hnot' : ¬ Provided (files.withDirectory target) target := hwith.symm ▸ hnot
  obtain ⟨failure, hfail⟩ := deploy_of_not_provided order hsource hnot'
  exact ⟨failure, hfail.trans (congrArg _ hwith)⟩

/-- A spelling that distinguishes the target makes a difference. -/
theorem not_sameOutcome_of_distinguishes (order : ListingOrder) (hdistinguishes : Distinguishes files source target target') :
    ¬ SameOutcome (files.deploy order source target) (files.deploy order source target') := by
  rintro ⟨hresult, hfiles⟩
  rcases hdistinguishes with ⟨hsource, hhinders⟩ | ⟨hlist, hhides⟩
  · have hmade := isDirectory_grows hhinders.made ((deploy_goes files order source target').runs hsource).grows
    obtain ⟨failure, hfail⟩ := deploy_of_not_provided order hsource (not_provided_of_dotHinders h hhinders)
    rw [← hfiles, hfail, ← isDirectory_of_same h haccepts, hhinders.unmade] at hmade
    cases hmade
  · obtain ⟨failure, hfail⟩ := deploy_of_endHides h haccepts order (isDirectory_of_list hlist) hhides
    have hempty := (hresult ⟨0, 0⟩).2 (by rw [deploy_empty order hlist hhides.leads])
    rw [hfail] at hempty
    cases hempty

end Spelling

/-- **Whether two spellings of the target make a difference.** Let the system accept both or none, for the target and for all
that is deployed below it. Then a deployment comes to the same under both, unless one of the two does not ask for a directory and
leads to what is none, with nothing in the source to be put into it, or one of them ends in a dot where the directory is
missing. -/
theorem deploy_spelling (files : FileSystem) (order : ListingOrder) (source target target' : Path) (h : target.Same target')
    (haccepts : AcceptsAlike (files.deploy order source target).files source target target') :
    SameOutcome (files.deploy order source target) (files.deploy order source target') ↔
      ¬ (Distinguishes files source target target' ∨ Distinguishes files source target' target) := by
  by_cases hsource : files.isDirectory source = true
  · have hcheck : checkPath target = .ok () ↔ checkPath target' = .ok () :=
      haccepts [] (leads_of_isDirectory (isDirectory_grows hsource (files.deploy_grows order source target)))
    constructor
    · rintro hsame (hdistinguishes | hdistinguishes)
      · exact not_sameOutcome_of_distinguishes h hcheck order hdistinguishes hsame
      · exact not_sameOutcome_of_distinguishes h.symm hcheck.symm order hdistinguishes hsame.symm
    · intro hnot
      rcases provideDirectory_spelling h hcheck ⟨files, ⟨0, 0⟩⟩ with hmatches | (hhinders | hhinders) | hhides | hhides
      · exact sameOutcome_of_matches h haccepts hsource hmatches
      · exact absurd (.inl (.inl ⟨hsource, hhinders⟩)) hnot
      · exact absurd (.inr (.inl ⟨hsource, hhinders⟩)) hnot
      · have hlist : files.list source ≠ .ok [] := fun hlist => hnot (.inl (.inr ⟨hlist, hhides⟩))
        obtain ⟨failure, hfail⟩ := deploy_of_endHides h hcheck order hsource hhides
        obtain ⟨failure', hfail'⟩ := deploy_onto_other order hsource hlist hhides.leads hhides.not_directory
        rw [hfail, hfail']
        exact sameOutcome_of_error
      · have hlist : files.list source ≠ .ok [] := fun hlist => hnot (.inr (.inr ⟨hlist, hhides⟩))
        obtain ⟨failure, hfail⟩ := deploy_onto_other order hsource hlist hhides.leads hhides.not_directory
        obtain ⟨failure', hfail'⟩ := deploy_of_endHides h.symm hcheck.symm order hsource hhides
        rw [hfail, hfail']
        exact sameOutcome_of_error
  · have hsource' : files.isDirectory source = false := Bool.eq_false_iff.2 hsource
    obtain ⟨failure, hfail⟩ := deploy_without_source order target hsource'
    obtain ⟨failure', hfail'⟩ := deploy_without_source order target' hsource'
    rw [hfail, hfail']
    have hnot : ∀ path path', ¬ Distinguishes files source path path' := by
      rintro path path' (⟨hdirectory, -⟩ | ⟨hlist, -⟩)
      · exact hsource hdirectory
      · exact hsource (isDirectory_of_list hlist)
    exact iff_of_true sameOutcome_of_error fun hdistinguishes => hdistinguishes.elim (hnot _ _) (hnot _ _)

/-- A missing target `u` is made, and with a dot at its end it is not. -/
theorem deploy_spelling_dot : (Path.ofString "u/.").Same (.ofString "u") ∧
    AcceptsAlike (emptyAndFile.deploy .byName (.ofString "s/x") (.ofString "u/.")).files (.ofString "s/x") (.ofString "u/.")
      (.ofString "u") ∧
    ¬ SameOutcome (emptyAndFile.deploy .byName (.ofString "s/x") (.ofString "u/."))
      (emptyAndFile.deploy .byName (.ofString "s/x") (.ofString "u")) := by
  have hsame : (Path.ofString "u/.").Same (.ofString "u") := by decide
  have haccepts : AcceptsAlike (emptyAndFile.deploy .byName (.ofString "s/x") (.ofString "u/.")).files (.ofString "s/x")
      (.ofString "u/.") (.ofString "u") :=
    acceptsAlike_of_length_le rfl rfl rfl (by decide) (by decide)
  have hhinders : DotHinders emptyAndFile (.ofString "u/.") (.ofString "u") := ⟨rfl, rfl, by cbv, by cbv⟩
  exact ⟨hsame, haccepts, fun hsameOutcome =>
    (deploy_spelling emptyAndFile .byName (.ofString "s/x") (.ofString "u/.") (.ofString "u") hsame haccepts).1 hsameOutcome
      (.inl (.inl ⟨rfl, hhinders⟩))⟩

end Deployment

end ConsoleKit
