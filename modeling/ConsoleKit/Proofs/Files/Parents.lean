import ConsoleKit.Deployment.Separation
import ConsoleKit.Proofs.Files.Ancestors
import ConsoleKit.Proofs.Files.Directories
import ConsoleKit.Proofs.Files.Kinds

/-!
# Making a path of names

Where everything that is there on the way is a directory, a path of names can be made with its missing parents
(`makeDirectories_along`). Its parents are paths of names, too, so that the argument is an induction on the names: either
the parent is there, or it is made first. Below a file nothing can be made (`Spells.makeDirectories_below_file`).
-/

namespace ConsoleKit.FileSystem

open ConsoleKit.Path (along Pieces Segment)

variable {files files' : FileSystem} {path target : Path} {location place : Location} {names front after : List FileName}
  {name : FileName} {node : Node}

/-- All that is there on a way along names is a directory. -/
def Passable (files : FileSystem) (location : Location) (names : List FileName) : Prop :=
  ∀ front, front <+: names → ∀ kind, files.kind? (front.reverse ++ location) = some kind → kind = .directory

theorem Passable.upTo {rest : List FileName} (h : files.Passable location (front ++ rest)) :
    files.Passable location front :=
  fun front' hfront' => h front' (hfront'.trans (List.prefix_append _ _))

theorem Passable.directory (h : files.Passable location names) (hnode : files.node? (names.reverse ++ location) = some node) :
    ∃ mode entries, node = .directory mode entries := by
  have hkind := kind?_eq_some_iff.2 ⟨node, hnode, rfl⟩
  rw [h names List.prefix_rfl _ hkind, kind?_eq_directory_iff, hnode] at hkind
  obtain ⟨mode, entries, heq⟩ := hkind
  exact ⟨mode, entries, Option.some.inj heq⟩

/-! ## New directories -/

theorem MadeAt.kind? {paths : List Path} (h : MadeAt paths files files') (place : Location) :
    files'.kind? place = files.kind? place ∨ files.kind? place = none ∧ files'.kind? place = some .directory := by
  rw [kind?_eq_map_bare?, kind?_eq_map_bare?]
  rcases h.bare? place with hsame | ⟨hnone, ⟨mode, hnew⟩, -⟩
  · exact .inl (congrArg _ hsame)
  · rw [hnone, hnew]
    exact .inr ⟨rfl, rfl⟩

theorem MadeAt.linkFree {paths : List Path} (h : MadeAt paths files files') (hfree : files.LinkFree location) :
    files'.LinkFree location := by
  intro names target hne hlink
  have hkind := kind?_eq_some_iff.2 ⟨_, hlink, rfl⟩
  rcases h.kind? (names ++ location) with hsame | ⟨-, hnew⟩
  · obtain ⟨node, hnode, hlink'⟩ := kind?_eq_some_iff.1 (hsame.symm.trans hkind)
    cases node <;> cases hlink'
    exact hfree names _ hne hnode
  · rw [hnew] at hkind
    cases hkind

theorem MadeAt.ordinary {paths : List Path} (h : MadeAt paths files files') (hordinary : files.Ordinary) : files'.Ordinary := by
  rw [ordinary_iff] at *
  intro place kind hkind
  rcases h.kind? place with hsame | ⟨-, hnew⟩
  · exact hordinary place kind (hsame.symm.trans hkind)
  · rw [hnew] at hkind
    cases hkind
    exact .inl rfl

theorem MadeAt.passable {paths : List Path} (h : MadeAt paths files files') (hpassable : files.Passable location names) :
    files'.Passable location names := by
  intro front hfront kind hkind
  rcases h.kind? (front.reverse ++ location) with hsame | ⟨-, hnew⟩
  · exact hpassable front hfront kind (hsame.symm.trans hkind)
  · rw [hnew] at hkind
    cases hkind
    rfl

/-! ## One path of names -/

section Origin

variable {mode : Mode} {entries : List (FileName × Node)} (hfree : files.LinkFree location) (hcheck : checkPath path = .ok ())
  (horigin : files.origin path = .ok ⟨location, .directory mode entries, false⟩)

include hfree hcheck horigin

/-- A directory under a path of names is found, whatever slashes are at the end of the path. -/
theorem settle_of_along (hsteps : path.steps = along names) (hpassable : files.Passable location names)
    (hnode : files.node? (names.reverse ++ location) = some node) (error : SystemError) : files.settle path error = .ok () := by
  have hstart := (origin_becomes horigin).node? rfl
  obtain ⟨mode', entries', rfl⟩ := hpassable.directory hnode
  have hfollow : files.follow .find linkLimit ⟨location, .directory mode entries, false⟩ path.steps =
      .ok (.found ⟨names.reverse ++ location, .directory mode' entries', false⟩) := by
    rw [hsteps]
    exact follow_of_arrived (advance_along_of_node? hstart hfree hnode)
  have hdirectory : path.directory = path := directory_eq_self (not_isEmpty_of_checkPath hcheck)
  have hfind := find_directory (hdirectory.symm ▸ hcheck) horigin hfollow ⟨mode', entries', rfl⟩
  rw [hdirectory] at hfind
  have hisDirectory : files.isDirectory path = true :=
    isDirectory_iff_find.2 ⟨_, mode', entries', hfind, rfl⟩
  rw [settle, if_pos hisDirectory]

/-- Where something is under a path of names, trying to make it comes to nothing. -/
theorem makeDirectory_of_along (hsteps : path.steps = along names) (hpassable : files.Passable location names)
    (hnode : files.node? (names.reverse ++ location) = some node) :
    ∃ error, files.makeDirectory path = .error error ∧ error ≠ .notFound ∧ files.settle path error = .ok () := by
  have hstart := (origin_becomes horigin).node? rfl
  have hfollow : files.follow .find linkLimit ⟨location, .directory mode entries, false⟩ path.steps =
      .ok (.found ⟨names.reverse ++ location, node, false⟩) := by
    rw [hsteps]
    exact follow_of_arrived (advance_along_of_node? hstart hfree hnode)
  obtain ⟨error, herror, hne⟩ := makeDirectory_of_follow hcheck horigin hfollow
  exact ⟨error, herror, hne, settle_of_along hfree hcheck horigin hsteps hpassable hnode error⟩

/-- If the parent of a path of names is there, the path is there or can be made. -/
theorem makeDirectory_of_front (hsteps : path.steps = along (front ++ [name]))
    (hpassable : files.Passable location (front ++ [name])) (hnode : files.node? (front.reverse ++ location) = some node) :
    (∃ made, files.makeDirectory path = .ok made) ∨
      ∃ error, files.makeDirectory path = .error error ∧ error ≠ .notFound ∧ files.settle path error = .ok () := by
  have hstart := (origin_becomes horigin).node? rfl
  obtain ⟨mode', entries', rfl⟩ := hpassable.upTo.directory hnode
  have hfollow : files.follow .find linkLimit ⟨location, .directory mode entries, false⟩ (along front) =
      .ok (.found ⟨front.reverse ++ location, .directory mode' entries', false⟩) :=
    follow_of_arrived (advance_along_of_node? hstart hfree hnode)
  have hchild : files.node? ((front ++ [name]).reverse ++ location) = entries'.lookup name := by
    rw [List.reverse_append, List.reverse_singleton, List.singleton_append, List.cons_append, node?_cons, hnode]
    rfl
  cases hlookup : entries'.lookup name with
  | none =>
    rw [along, List.map_append] at hsteps
    exact .inl (makeDirectory_of_lookup hcheck hsteps horigin hfollow hlookup)
  | some child => exact .inr (makeDirectory_of_along hfree hcheck horigin hsteps hpassable (hchild.trans hlookup))

end Origin

/-- If the parent of a path of names is missing, this is what it fails for. -/
theorem makeDirectory_of_front_missing {mode : Mode} {entries : List (FileName × Node)} (hcheck : checkPath path = .ok ())
    (horigin : files.origin path = .ok ⟨location, .directory mode entries, false⟩)
    (hsteps : path.steps = along (front ++ [name])) (hpassable : files.Passable location (front ++ [name]))
    (hnone : files.node? (front.reverse ++ location) = none) :
    files.makeDirectory path = .error .notFound := by
  have hway := advance_along_missing ((origin_becomes horigin).node? rfl) hpassable.upTo hnone
  rw [along, List.map_append] at hsteps
  refine makeDirectory_of_missing hcheck hsteps horigin ?_
  rcases hway with ⟨directory, name', hway⟩ | hway
  · exact .inl ⟨directory, name', follow_of_arrived hway⟩
  · exact .inr (follow_of_error hway)

/-! ## A path of names with its parents -/

/-- Where a path of names was made, something is there. -/
theorem node?_of_makeDirectories {mode : Mode} {entries : List (FileName × Node)} {above : List Pieces}
    (hfree : files'.LinkFree location) (hcheck : checkPath target = .ok ())
    (horigin : files'.origin target = .ok ⟨location, .directory mode entries, false⟩)
    (hbegins : path.spelling <+: target.spelling) (hsteps : path.steps = along names)
    (h : files.makeDirectories path above = (.ok (), files')) :
    ∃ node, files'.node? (names.reverse ++ location) = some node := by
  rcases find_of_makeDirectories (congrArg Prod.fst h) with hnil | ⟨spot, hfind⟩
  · rw [Path.steps_of_isEmpty hnil] at hsteps
    obtain rfl : names = [] := by simpa [along] using hsteps.symm
    exact ⟨_, (origin_becomes horigin).node? rfl⟩
  · simp only [h] at hfind
    obtain ⟨node, hnode, -⟩ := hfree.find_beginning hcheck horigin hbegins hsteps hfind
    exact ⟨node, hnode⟩

/-- A path of names can be made with its missing parents, if everything that is there on the way is a directory. The
induction is on the names; the parent of the path is spelled by fewer of its pieces. -/
theorem makeDirectories_along {mode : Mode} {entries : List (FileName × Node)} {absolute : Bool} {reversed : List Bytes}
    (hfree : files.LinkFree location) (hcheck : checkPath target = .ok ())
    (horigin : files.origin target = .ok ⟨location, .directory mode entries, false⟩)
    (hbegins : path.spelling <+: target.spelling) (hsteps : path.steps = along names)
    (hbegins' : (Pieces.path ⟨absolute, reversed⟩).spelling <+: target.spelling)
    (hsteps' : (Pieces.path ⟨absolute, reversed⟩).steps = along names) (hslash : ∀ piece ∈ reversed, slash ∉ piece)
    (hpassable : files.Passable location names) :
    ∃ made, files.makeDirectories path ((Pieces.above absolute reversed).map (⟨absolute, ·⟩)) = (.ok (), made) := by
  have hstart := (origin_becomes horigin).node? rfl
  induction names using List.reverseRecOn generalizing path reversed with
  | nil =>
    by_cases hempty : path.isEmpty
    · exact ⟨files, makeDirectories_of_isEmpty hempty _⟩
    · obtain ⟨hcheck', horigin'⟩ := origin_of_isPrefix files hcheck hbegins hempty
      obtain ⟨error, herror, hne, hsettle⟩ :=
        makeDirectory_of_along hfree hcheck' (horigin'.trans horigin) hsteps hpassable hstart
      rw [makeDirectories_of_error hempty herror hne, hsettle]
      exact ⟨files, rfl⟩
  | append_singleton front name ih =>
    have hempty : ¬ path.isEmpty := by
      intro hempty
      rw [Path.steps_of_isEmpty hempty] at hsteps
      simp [along] at hsteps
    obtain ⟨hcheck', horigin'⟩ := origin_of_isPrefix files hcheck hbegins hempty
    cases hfront : files.node? (front.reverse ++ location) with
    | some node =>
      rcases makeDirectory_of_front hfree hcheck' (horigin'.trans horigin) hsteps hpassable hfront with
        ⟨made, hmake⟩ | ⟨error, herror, hne, hsettle⟩
      · exact ⟨made, makeDirectories_of_ok hempty hmake _⟩
      · rw [makeDirectories_of_error hempty herror hne, hsettle]
        exact ⟨files, rfl⟩
    | none =>
      have hmissing := makeDirectory_of_front_missing hcheck' (horigin'.trans horigin) hsteps hpassable hfront
      -- The parent is spelled by the pieces before, less what is no component at their end.
      obtain ⟨before, hsuffix, habove, hbeforeSteps⟩ := Path.above_concat hsteps' hslash
      have hbefore := (Path.spelling_path_prefix absolute hsuffix).trans hbegins'
      have hparent := (Path.spelling_path_prefix absolute (Path.trimmed_suffix absolute before)).trans hbefore
      have hparentSteps := Path.steps_trimmed_of_along hbeforeSteps
      obtain ⟨middle, hmiddle⟩ := ih hparent hparentSteps hbefore hbeforeSteps
        (fun piece hpiece => hslash piece (hsuffix.subset hpiece)) hpassable.upTo
      have hmade := madeAt_of_makeDirectories hmiddle
      have hfree' := hmade.linkFree hfree
      obtain ⟨entries', hstart'⟩ := origin_directory_grows hmade.grows horigin
      obtain ⟨node, hnode⟩ := node?_of_makeDirectories hfree' hcheck hstart' hparent hparentSteps hmiddle
      have hsame := (origin_of_isPrefix middle hcheck hbegins hempty).2
      rw [habove, List.map_cons, makeDirectories_of_parent_ok hempty hmissing hmiddle]
      rcases makeDirectory_of_front hfree' hcheck' (hsame.trans hstart') hsteps (hmade.passable hpassable) hnode with
        ⟨made, hmake⟩ | ⟨error, herror, -, hsettle⟩
      · exact ⟨made, by rw [hmake]⟩
      · exact ⟨middle, by simp only [herror, hsettle]⟩

theorem makeDirectories_of_passable (h : files.Spells path location names) (hcheck : checkPath path = .ok ())
    (hfree : files.LinkFree location) (hpassable : files.Passable location names) :
    files.makeDirectories path path.pieces.ancestors = (.ok (), files.withDirectory path) := by
  obtain ⟨mode, entries, horigin⟩ := h.origin
  have hpieces : Pieces.path ⟨path.pieces.absolute, path.pieces.reversed⟩ = path := path.path_pieces
  obtain ⟨made, hmade⟩ := makeDirectories_along hfree hcheck horigin List.prefix_rfl h.steps
    (hpieces.symm ▸ List.prefix_rfl) (hpieces.symm ▸ h.steps) path.slash_notMem_pieces hpassable
  have hancestors : files.makeDirectories path path.pieces.ancestors = (.ok (), made) := hmade
  rw [withDirectory, hancestors]

/-! ## Below a file -/

theorem node?_below_file {below : Location} (hkind : files.kind? place = some .file) (hne : below ≠ []) :
    files.node? (below ++ place) = none := by
  obtain ⟨node, hnode, hfile⟩ := kind?_eq_some_iff.1 hkind
  refine node?_below (fun node' hnode' => ?_) hne
  rw [hnode, Option.some.injEq] at hnode'
  subst hnode'
  cases node <;> cases hfile <;> rfl

/-- A walk along names gets to a file, and no further. -/
theorem LinkFree.advance_below_file (hfree : files.LinkFree location) {start : Node} (hstart : files.node? location = some start)
    (hkind : files.kind? (front.reverse ++ location) = some .file) (segment : Segment) (rest : List Segment) :
    files.advance .find ⟨location, start, false⟩ (along front ++ segment :: rest) = .error .notDirectory := by
  obtain ⟨node, hnode, hfile⟩ := kind?_eq_some_iff.1 hkind
  rw [advance_append (by simp) (by simp) (advance_along_of_node? hstart hfree hnode)]
  cases node <;> cases hfile <;> rfl

namespace Spells

variable (h : files.Spells path location (front ++ name :: after)) (hfree : files.LinkFree location)
  (hkind : files.kind? (front.reverse ++ location) = some .file)

include h hfree hkind

theorem not_leads_below_file : ¬ files.Leads path := by
  rintro ⟨spot, hfind⟩
  obtain ⟨node, hnode, -⟩ := h.find_inv hfree hfind
  rw [List.reverse_append, List.append_assoc, node?_below_file hkind (by simp)] at hnode
  cases hnode

/-- A directory cannot be made below a file. -/
theorem makeDirectory_below_file (hcheck : checkPath path = .ok ()) : files.makeDirectory path = .error .notDirectory := by
  obtain ⟨mode, entries, horigin⟩ := h.origin
  have hstart := (origin_becomes horigin).node? rfl
  rcases List.eq_nil_or_concat after with rfl | ⟨after, last, rfl⟩
  · -- The file is the last thing on the way.
    obtain ⟨node, hnode, hfile⟩ := kind?_eq_some_iff.1 hkind
    have hsteps : path.steps = along front ++ [.entry name.bytes] := by rw [h.steps, along, List.map_append]; rfl
    have hlast := walkToLast_eq_ok hcheck hsteps horigin
      (follow_of_arrived (advance_along_of_node? hstart hfree hnode))
    rw [makeDirectory, vacancy, hlast]
    cases node <;> cases hfile <;> rfl
  · have hsteps : path.steps = (along front ++ .entry name.bytes :: along after) ++ [.entry last.bytes] := by
      rw [h.steps]
      simp [along]
    have hreverse : path.steps.reverse = .entry last.bytes :: (along front ++ .entry name.bytes :: along after).reverse := by
      rw [hsteps]
      simp
    have hfollow : files.follow .find linkLimit ⟨location, .directory mode entries, false⟩
        (along front ++ .entry name.bytes :: along after) = .error .notDirectory :=
      follow_of_error (hfree.advance_below_file hstart hkind (.entry name.bytes) (along after))
    have hlast : files.walkToLast path = .error .notDirectory := by
      unfold walkToLast
      rw [hcheck, hreverse]
      simp [horigin, hfollow, bind, Except.bind]
    rw [makeDirectory, vacancy, hlast]
    rfl

theorem makeDirectories_below_file (hcheck : checkPath path = .ok ()) (above : List Pieces) :
    files.makeDirectories path above = (.error .notDirectory, files) := by
  have hdirectory : files.isDirectory path = false := by
    rw [Bool.eq_false_iff]
    exact fun hdirectory => h.not_leads_below_file hfree hkind (leads_of_isDirectory hdirectory)
  rw [makeDirectories_of_error (not_isEmpty_of_checkPath hcheck) (h.makeDirectory_below_file hfree hkind hcheck) (by simp),
    settle, hdirectory]
  rfl

end Spells

end ConsoleKit.FileSystem
