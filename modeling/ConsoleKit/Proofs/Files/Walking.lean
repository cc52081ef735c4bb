import ConsoleKit.Files.Calls

/-!
# Walking along part of a path

A walk is made of stretches, and a stretch of single segments. This module says what one entry on the way can come
to (`advance_entry_inv`), and how a walk along segments followed by more segments is made of two walks: it finds
something on the first part (`follow_prefix`), and goes on from there (`follow_append`). How many links the rest of
the walk may follow depends on the first part alone.
-/

namespace ConsoleKit.FileSystem

open ConsoleKit.Path (Segment)

variable {files : FileSystem} {purpose : Purpose} {segments rest tail : List Segment} {links : Nat}

theorem node?_cons (files : FileSystem) (name : FileName) (parent : Location) :
    files.node? (name :: parent) = (files.node? parent).bind (Node.child? name) := rfl

theorem ofBytes?_bytes (name : FileName) : FileName.ofBytes? name.bytes = some name := by
  unfold FileName.ofBytes?
  rw [dif_pos name.valid]

/-! ## One segment -/

/-- What a single segment leads to from a spot, if it is no link. -/
inductive Passes (files : FileSystem) : Spot → Segment → Spot → Prop where
  | stay {spot : Spot} {segment : Segment} {mode : Mode} {entries : List (FileName × Node)}
      (hnode : spot.node = .directory mode entries) (hsegment : segment = .current ∨ segment = .trailingSlash) :
      Passes files spot segment spot
  | parent {spot parent : Spot} {mode : Mode} {entries : List (FileName × Node)}
      (hnode : spot.node = .directory mode entries) (hparent : files.parentSpot spot = .ok parent) :
      Passes files spot .parent parent
  | entry {location : Location} {mode : Mode} {entries : List (FileName × Node)} {piece : Bytes} {name : FileName}
      {node : Node} (hname : FileName.ofBytes? piece = some name) (hlookup : entries.lookup name = some node)
      (hlink : ∀ target, node ≠ .link target) :
      Passes files ⟨location, .directory mode entries, false⟩ (.entry piece) ⟨name :: location, node, false⟩

/-- The path of a file to be written ends in a slash: nothing else is refused without a look at the entry. -/
def Refused (purpose : Purpose) (segment : Segment) (rest : List Segment) : Prop :=
  purpose = .write ∧ rest = [.trailingSlash] ∧ ∃ piece, segment = .entry piece

theorem not_refused_find {segment : Segment} : ¬ Refused .find segment rest := fun h => by cases h.1

theorem not_refused_append {segment : Segment} (htail : tail ≠ []) (hwrite : purpose = .write → tail ≠ [.trailingSlash]) :
    ¬ Refused purpose segment (rest ++ tail) := by
  rintro ⟨hpurpose, hslash, -⟩
  rcases List.append_eq_singleton_iff.1 hslash with ⟨-, h⟩ | ⟨-, h⟩
  · exact hwrite hpurpose h
  · exact htail h

/-- A walk goes on through directories only. -/
theorem advance_directory {spot : Spot} {segment : Segment} {stretch : Stretch}
    (h : files.advance purpose spot (segment :: rest) = .ok stretch) :
    ∃ mode entries, spot.node = .directory mode entries := by
  obtain ⟨location, node, removed⟩ := spot
  cases node with
  | directory mode entries => exact ⟨mode, entries, rfl⟩
  | _ => simp [advance] at h

theorem advance_passes {spot next : Spot} {segment : Segment} (h : files.Passes spot segment next)
    (hrefused : ¬ Refused purpose segment rest) :
    files.advance purpose spot (segment :: rest) = files.advance purpose next rest := by
  cases h with
  | stay hnode hsegment => rcases hsegment with rfl | rfl <;> rw [advance, hnode]
  | parent hnode hparent => simp only [advance, hnode, hparent]
  | entry hname hlookup hlink =>
    have hwrite : ¬ (purpose = .write ∧ rest = [.trailingSlash]) := fun h => hrefused ⟨h.1, h.2, _, rfl⟩
    simp only [advance, if_neg hwrite, Bool.false_eq_true, if_false, hname, hlookup]

theorem advance_link {location : Location} {mode : Mode} {entries : List (FileName × Node)} {piece : Bytes}
    {name : FileName} {target : Path} (hrefused : ¬ Refused purpose (.entry piece) rest)
    (hname : FileName.ofBytes? piece = some name) (hlookup : entries.lookup name = some (.link target)) :
    files.advance purpose ⟨location, .directory mode entries, false⟩ (.entry piece :: rest) =
      .ok (.link ⟨location, .directory mode entries, false⟩ target rest) := by
  have hwrite : ¬ (purpose = .write ∧ rest = [.trailingSlash]) := fun h => hrefused ⟨h.1, h.2, _, rfl⟩
  simp [advance, hwrite, hname, hlookup]

theorem advance_missing {location : Location} {mode : Mode} {entries : List (FileName × Node)} {piece : Bytes}
    {name : FileName} (hrefused : ¬ Refused purpose (.entry piece) rest)
    (hname : FileName.ofBytes? piece = some name) (hlookup : entries.lookup name = none) :
    files.advance purpose ⟨location, .directory mode entries, false⟩ (.entry piece :: rest) =
      if rest.isEmpty then .ok (.arrived (.vacant location name)) else .error .notFound := by
  have hwrite : ¬ (purpose = .write ∧ rest = [.trailingSlash]) := fun h => hrefused ⟨h.1, h.2, _, rfl⟩
  simp [advance, hwrite, hname, hlookup]

/-- What the first segment of a stretch comes to: it is passed; or it is a name that is missing and the last one; or it
is a link, at which the stretch ends. -/
theorem advance_inv {spot : Spot} {segment : Segment} {stretch : Stretch}
    (h : files.advance purpose spot (segment :: rest) = .ok stretch) : ¬ Refused purpose segment rest ∧
    ((∃ next, files.Passes spot segment next ∧ files.advance purpose next rest = .ok stretch) ∨
      ∃ location mode entries piece name, spot = ⟨location, .directory mode entries, false⟩ ∧ segment = .entry piece ∧
        FileName.ofBytes? piece = some name ∧
        (entries.lookup name = none ∧ rest = [] ∧ stretch = .arrived (.vacant location name) ∨
          ∃ target, entries.lookup name = some (.link target) ∧ stretch = .link spot target rest)) := by
  obtain ⟨mode, entries, hnode⟩ := advance_directory h
  obtain ⟨location, node, removed⟩ := spot
  cases hnode
  cases segment with
  | current => exact ⟨by simp [Refused], .inl ⟨_, .stay rfl (.inl rfl), h⟩⟩
  | trailingSlash => exact ⟨by simp [Refused], .inl ⟨_, .stay rfl (.inr rfl), h⟩⟩
  | parent =>
    simp only [advance] at h
    cases hparent : files.parentSpot ⟨location, .directory mode entries, removed⟩ with
    | error error => simp [hparent] at h
    | ok parent =>
      rw [hparent] at h
      exact ⟨by simp [Refused], .inl ⟨parent, .parent rfl hparent, h⟩⟩
  | entry piece =>
    simp only [advance] at h
    by_cases hwrite : purpose = .write ∧ rest = [.trailingSlash]
    · simp [hwrite] at h
    rw [if_neg hwrite] at h
    refine ⟨fun hrefused => hwrite ⟨hrefused.1, hrefused.2.1⟩, ?_⟩
    cases removed with
    | true => simp at h
    | false =>
      simp only [Bool.false_eq_true, if_false] at h
      cases hname : FileName.ofBytes? piece with
      | none => simp [hname] at h
      | some name =>
        simp only [hname] at h
        cases hlookup : entries.lookup name with
        | none =>
          rw [hlookup] at h
          cases rest with
          | nil => exact .inr ⟨_, _, _, _, name, rfl, rfl, hname, .inl ⟨hlookup, rfl, (Except.ok.inj h).symm⟩⟩
          | cons segment rest => simp at h
        | some node =>
          rw [hlookup] at h
          cases node with
          | link target =>
            exact .inr ⟨_, _, _, _, name, rfl, rfl, hname, .inr ⟨target, hlookup, (Except.ok.inj h).symm⟩⟩
          | _ => exact .inl ⟨_, .entry hname hlookup (by simp), h⟩

/-- To find something asks for less than to write. -/
theorem advance_find {spot : Spot} {stretch : Stretch} (h : files.advance purpose spot segments = .ok stretch) :
    files.advance .find spot segments = .ok stretch := by
  induction segments generalizing spot with
  | nil => exact h
  | cons segment rest ih =>
    rcases advance_inv h with ⟨-, ⟨next, hpasses, honward⟩ |
      ⟨location, mode, entries, piece, name, rfl, rfl, hname, ⟨hlookup, rfl, rfl⟩ | ⟨target, hlookup, rfl⟩⟩⟩
    · rw [advance_passes hpasses not_refused_find]
      exact ih honward
    · rw [advance_missing not_refused_find hname hlookup]
      rfl
    · exact advance_link not_refused_find hname hlookup

/-! ## Two parts of a stretch -/

/-- A stretch along segments and more segments after them either finds something on the first part, or ends there at
a link. -/
theorem advance_prefix {spot : Spot} {stretch : Stretch} (htail : tail ≠ [])
    (h : files.advance purpose spot (segments ++ tail) = .ok stretch) :
    (∃ found, files.advance .find spot segments = .ok (.arrived (.found found)) ∧
        files.advance purpose found tail = .ok stretch) ∨
      ∃ directory target rest, files.advance .find spot segments = .ok (.link directory target rest) ∧
        stretch = .link directory target (rest ++ tail) := by
  induction segments generalizing spot with
  | nil => exact .inl ⟨spot, rfl, h⟩
  | cons segment segments ih =>
    rcases advance_inv h with ⟨-, ⟨next, hpasses, honward⟩ |
      ⟨location, mode, entries, piece, name, rfl, rfl, hname, ⟨-, hnil, -⟩ | ⟨target, hlookup, rfl⟩⟩⟩
    · rw [advance_passes hpasses not_refused_find]
      exact ih honward
    · exact absurd (List.append_eq_nil_iff.1 hnil).2 htail
    · exact .inr ⟨_, target, segments, advance_link not_refused_find hname hlookup, rfl⟩

/-- What comes of a stretch if there are more segments after it. -/
def Stretch.onward (files : FileSystem) (purpose : Purpose) (tail : List Segment) : Stretch → Except SystemError Stretch
  | .arrived (.found spot) => files.advance purpose spot tail
  | .arrived (.vacant _ _) => .error .notFound
  | .link directory target rest => .ok (.link directory target (rest ++ tail))

/-- A stretch does not depend on what comes after it. -/
theorem advance_append {spot : Spot} {stretch : Stretch} (htail : tail ≠ [])
    (hwrite : purpose = .write → tail ≠ [.trailingSlash]) (h : files.advance .find spot segments = .ok stretch) :
    files.advance purpose spot (segments ++ tail) = stretch.onward files purpose tail := by
  induction segments generalizing spot with
  | nil =>
    cases h
    rfl
  | cons segment segments ih =>
    have hrefused : ¬ Refused purpose segment (segments ++ tail) := not_refused_append htail hwrite
    rw [List.cons_append]
    rcases advance_inv h with ⟨-, ⟨next, hpasses, honward⟩ |
      ⟨location, mode, entries, piece, name, rfl, rfl, hname, ⟨hlookup, rfl, rfl⟩ | ⟨target, hlookup, rfl⟩⟩⟩
    · rw [advance_passes hpasses hrefused]
      exact ih honward
    · rw [advance_missing hrefused hname hlookup, List.nil_append, if_neg (by simpa using htail)]
      rfl
    · exact advance_link hrefused hname hlookup

/-! ## Two parts of a walk -/

theorem follow_succ (files : FileSystem) (purpose : Purpose) (links : Nat) (spot : Spot) (segments : List Segment) :
    files.follow purpose (links + 1) spot segments =
      match files.advance purpose spot segments with
      | .error error => .error error
      | .ok (.arrived arrival) => .ok arrival
      | .ok (.link directory target rest) =>
        files.follow purpose links (files.startSpot directory target) (target.segments ++ rest) := by
  rcases h : files.advance purpose spot segments with error | (arrival | ⟨directory, target, rest⟩) <;> rw [follow, h]

theorem follow_of_arrived {spot : Spot} {arrival : Arrival} (h : files.advance purpose spot segments = .ok (.arrived arrival)) :
    files.follow purpose links spot segments = .ok arrival := by
  cases links <;> rw [follow, h]

theorem follow_of_error {spot : Spot} {error : SystemError} (h : files.advance purpose spot segments = .error error) :
    files.follow purpose links spot segments = .error error := by
  unfold follow
  rw [h]

theorem follow_of_link {spot directory : Spot} {target : Path}
    (h : files.advance purpose spot segments = .ok (.link directory target rest)) :
    files.follow purpose (links + 1) spot segments =
      files.follow purpose links (files.startSpot directory target) (target.segments ++ rest) := by
  rw [follow, h]

/-- A walk that arrives does so on one stretch, or after following a link. -/
theorem follow_inv {spot : Spot} {arrival : Arrival} (h : files.follow purpose links spot segments = .ok arrival) :
    files.advance purpose spot segments = .ok (.arrived arrival) ∨
      ∃ links' directory target rest, links = links' + 1 ∧
        files.advance purpose spot segments = .ok (.link directory target rest) ∧
        files.follow purpose links' (files.startSpot directory target) (target.segments ++ rest) = .ok arrival := by
  cases hadvance : files.advance purpose spot segments with
  | error error => cases links <;> simp [follow, hadvance] at h
  | ok stretch =>
    cases stretch with
    | arrived arrival' =>
      rw [follow_of_arrived hadvance] at h
      cases h
      exact .inl rfl
    | link directory target rest =>
      cases links with
      | zero => simp [follow, hadvance] at h
      | succ links =>
        rw [follow_of_link hadvance] at h
        exact .inr ⟨links, directory, target, rest, rfl, rfl, h⟩

/-- A walk begins in a directory, if it goes anywhere. -/
theorem follow_directory {spot : Spot} {arrival : Arrival} (hne : segments ≠ [])
    (h : files.follow purpose links spot segments = .ok arrival) : ∃ mode entries, spot.node = .directory mode entries := by
  obtain ⟨segment, rest, rfl⟩ := List.exists_cons_of_ne_nil hne
  rcases follow_inv h with hadvance | ⟨_, _, _, _, -, hadvance, -⟩
  · exact advance_directory hadvance
  · exact advance_directory hadvance

/-- Where a walk arrives does not depend on how many links it might have followed. -/
theorem follow_unique {links' : Nat} {spot : Spot} {arrival arrival' : Arrival}
    (h : files.follow purpose links spot segments = .ok arrival)
    (h' : files.follow purpose links' spot segments = .ok arrival') : arrival = arrival' := by
  induction links using Nat.strongRecOn generalizing links' spot segments with
  | ind links ih =>
    rcases follow_inv h with harrived | ⟨fewer, directory, target, rest, hlinks, hlink, hfollow⟩
    · rcases follow_inv h' with harrived' | ⟨_, _, _, _, -, hlink', -⟩
      · cases harrived.symm.trans harrived'
        rfl
      · cases harrived.symm.trans hlink'
    · rcases follow_inv h' with harrived' | ⟨_, _, _, _, -, hlink', hfollow'⟩
      · cases hlink.symm.trans harrived'
      · cases hlink.symm.trans hlink'
        exact ih fewer (by omega) hfollow hfollow'

/-- A walk that finds something passes its first segment, or meets a link there. -/
theorem follow_found_cons {spot found : Spot} {segment : Segment}
    (h : files.follow purpose links spot (segment :: rest) = .ok (.found found)) :
    (∃ next, files.Passes spot segment next) ∨
      ∃ location mode entries piece name target, spot = ⟨location, .directory mode entries, false⟩ ∧
        segment = .entry piece ∧ FileName.ofBytes? piece = some name ∧ entries.lookup name = some (.link target) := by
  have hstretch : ∃ stretch, files.advance purpose spot (segment :: rest) = .ok stretch ∧
      ∀ location name, stretch ≠ .arrived (.vacant location name) := by
    rcases follow_inv h with h | ⟨_, _, _, _, _, h, _⟩
    · exact ⟨_, h, by simp⟩
    · exact ⟨_, h, by simp⟩
  obtain ⟨stretch, hadvance, hvacant⟩ := hstretch
  rcases advance_inv hadvance with ⟨-, ⟨next, hpasses, -⟩ |
    ⟨location, mode, entries, piece, name, hspot, hsegment, hname, ⟨-, -, rfl⟩ | ⟨target, hlookup, -⟩⟩⟩
  · exact .inl ⟨next, hpasses⟩
  · exact absurd rfl (hvacant location name)
  · exact .inr ⟨location, mode, entries, piece, name, target, hspot, hsegment, hname, hlookup⟩

theorem follow_find {spot : Spot} {arrival : Arrival} (h : files.follow purpose links spot segments = .ok arrival) :
    files.follow .find links spot segments = .ok arrival := by
  induction links generalizing spot segments with
  | zero =>
    rcases follow_inv h with hadvance | ⟨_, _, _, _, hlinks, _, _⟩
    · exact follow_of_arrived (advance_find hadvance)
    · cases hlinks
  | succ links ih =>
    rcases follow_inv h with hadvance | ⟨_, _, _, _, hlinks, hadvance, honward⟩
    · exact follow_of_arrived (advance_find hadvance)
    · cases hlinks
      rw [follow_of_link (advance_find hadvance)]
      exact ih honward

/-- A walk along segments and more segments after them finds something on the first part, and arrives from there. -/
theorem follow_prefix {spot : Spot} {arrival : Arrival} (htail : tail ≠ [])
    (h : files.follow purpose links spot (segments ++ tail) = .ok arrival) :
    ∃ found links', files.follow .find links spot segments = .ok (.found found) ∧
      files.follow purpose links' found tail = .ok arrival := by
  induction links generalizing spot segments with
  | zero =>
    rcases follow_inv h with hadvance | ⟨_, _, _, _, hlinks, _, _⟩
    · rcases advance_prefix htail hadvance with ⟨found, hfound, honward⟩ | ⟨_, _, _, _, hlink⟩
      · exact ⟨found, 0, follow_of_arrived hfound, follow_of_arrived honward⟩
      · cases hlink
    · cases hlinks
  | succ links ih =>
    rcases follow_inv h with hadvance | ⟨links', directory, target, rest, hlinks, hadvance, honward⟩
    · rcases advance_prefix htail hadvance with ⟨found, hfound, honward⟩ | ⟨_, _, _, _, hlink⟩
      · exact ⟨found, 0, follow_of_arrived hfound, follow_of_arrived honward⟩
      · cases hlink
    · cases hlinks
      rcases advance_prefix htail hadvance with ⟨found, hfound, honward'⟩ | ⟨directory', target', rest', hlink, hstretch⟩
      · exact ⟨found, links + 1, follow_of_arrived hfound, by rw [follow_of_link honward', honward]⟩
      · cases hstretch
        rw [← List.append_assoc] at honward
        obtain ⟨found, links'', hfound, harrival⟩ := ih honward
        exact ⟨found, links'', by rw [follow_of_link hlink, hfound], harrival⟩

/-- From what a walk finds it goes on with a number of links that depends on this part of the walk alone. -/
theorem follow_append {spot found : Spot} (h : files.follow .find links spot segments = .ok (.found found)) :
    ∃ links', ∀ purpose tail, tail ≠ [] → (purpose = .write → tail ≠ [.trailingSlash]) →
      files.follow purpose links spot (segments ++ tail) = files.follow purpose links' found tail := by
  induction links generalizing spot segments with
  | zero =>
    rcases follow_inv h with hadvance | ⟨_, _, _, _, hlinks, _, _⟩
    · refine ⟨0, ?_⟩
      intro purpose tail htail hwrite
      unfold follow
      rw [advance_append htail hwrite hadvance]
      rfl
    · cases hlinks
  | succ links ih =>
    rcases follow_inv h with hadvance | ⟨links', directory, target, rest, hlinks, hadvance, honward⟩
    · refine ⟨links + 1, ?_⟩
      intro purpose tail htail hwrite
      rw [follow_succ, follow_succ, advance_append htail hwrite hadvance]
      rfl
    · cases hlinks
      obtain ⟨links', hlinks'⟩ := ih honward
      refine ⟨links', ?_⟩
      intro purpose tail htail hwrite
      rw [follow_of_link (advance_append htail hwrite hadvance), ← List.append_assoc, hlinks' purpose tail htail hwrite]

/-! ## Segments that stay -/

/-- Dots and a slash at the end lead nowhere else; they ask for a directory. -/
theorem follow_stay_iff {spot : Spot} {arrival : Arrival}
    (hstay : ∀ segment ∈ segments, segment = .current ∨ segment = .trailingSlash)
    (hne : segments ≠ []) : files.follow purpose links spot segments = .ok arrival ↔
      arrival = .found spot ∧ ∃ mode entries, spot.node = .directory mode entries := by
  have hadvance : ∀ segments : List Segment, (∀ segment ∈ segments, segment = .current ∨ segment = .trailingSlash) →
      ∀ mode entries, spot.node = .directory mode entries →
        files.advance purpose spot segments = .ok (.arrived (.found spot)) := by
    intro segments hstay mode entries hnode
    induction segments with
    | nil => rfl
    | cons segment rest ih =>
      have hrest := ih fun segment hmem => hstay segment (.tail _ hmem)
      unfold advance
      rw [hnode]
      rcases hstay segment (.head _) with rfl | rfl
      · exact hrest
      · exact hrest
  constructor
  · intro h
    obtain ⟨mode, entries, hnode⟩ := follow_directory hne h
    rw [follow_of_arrived (hadvance _ hstay mode entries hnode)] at h
    cases h
    exact ⟨rfl, mode, entries, hnode⟩
  · rintro ⟨rfl, mode, entries, hnode⟩
    exact follow_of_arrived (hadvance _ hstay mode entries hnode)

end ConsoleKit.FileSystem
