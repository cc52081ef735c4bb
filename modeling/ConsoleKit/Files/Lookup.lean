import ConsoleKit.Files.FileSystem

/-!
# What is found after a change

How looking up a place relates to the operations that change a tree. A change at a place shows at the place
and below it, and nowhere else: of every other node it leaves at least everything but the entries
(`Node.bare`), which is all that can be seen at a place without going further down. For file systems this says
that `put` changes the view `get?` at one place.
-/

namespace ConsoleKit

namespace Node

/-! ## Entries of a directory -/

theorem lookup_insertEntry (name name' : FileName) (node : Node) (entries : List (FileName × Node)) :
    (insertEntry name node entries).lookup name' =
      if name' = name then some node else entries.lookup name' := by
  induction entries with
  | nil => grind [insertEntry]
  | cons head entries ih =>
    obtain ⟨key, value⟩ := head
    have := FileName.lt_irrefl name
    grind [insertEntry]

theorem lookup_mapEntry (name name' : FileName) (f : Node → Node) (entries : List (FileName × Node)) :
    (mapEntry name f entries).lookup name' =
      (entries.lookup name').map fun node => if name' = name then f node else node := by
  induction entries with
  | nil => rfl
  | cons head entries ih =>
    obtain ⟨key, value⟩ := head
    by_cases hkey : key = name
    · subst hkey
      by_cases hname : name' = key
      · simp [mapEntry, hname]
      · have hne : (name' == key) = false := by simpa using hname
        simp [mapEntry, List.lookup_cons, hne, hname]
    · grind [mapEntry]

theorem lookup_eraseEntry (name name' : FileName) (entries : List (FileName × Node)) :
    (eraseEntry name entries).lookup name' = if name' = name then none else entries.lookup name' := by
  induction entries with
  | nil => simp [eraseEntry]
  | cons head entries ih =>
    obtain ⟨key, value⟩ := head
    rw [eraseEntry] at ih
    simp only [eraseEntry, List.filter_cons]
    grind

/-! ## Places -/

@[simp]
theorem at?_nil (root : Node) : root.at? [] = some root :=
  rfl

theorem at?_cons (root : Node) (name : FileName) (parent : Location) :
    root.at? (name :: parent) = (root.at? parent).bind (child? name) :=
  rfl

/-- Going to a place, and then to a place below it. -/
theorem at?_append (root : Node) (names location : Location) :
    root.at? (names ++ location) = (root.at? location).bind fun node => node.at? names := by
  induction names with
  | nil => simp
  | cons name names ih => rw [List.cons_append, at?_cons, ih, Option.bind_assoc]; rfl

/-- A node without its entries. -/
def bare : Node → Node
  | .directory mode _ => .directory mode []
  | node => node

/-- At the changed place and below it, the changed node is found. -/
theorem at?_modify_append (root : Node) (f : Node → Node) (names location : Location) :
    (root.modify f location).at? (names ++ location) =
      (root.at? location).bind fun node => (f node).at? names := by
  induction location generalizing f names with
  | nil => simp [modify]
  | cons name parent ih =>
    rw [modify, List.append_cons, ih, at?_cons, Option.bind_assoc]
    congr 1
    funext node
    rw [at?_append]
    cases node with
    | directory mode entries =>
      simp only [at?_cons, at?_nil, Option.bind_some, child?, lookup_mapEntry, if_true]
      cases entries.lookup name <;> rfl
    | _ => simp [at?_cons, child?]

/-- Elsewhere, nothing but entries can have changed. -/
theorem bare_at?_modify (root : Node) (f : Node → Node) {location place : Location}
    (h : ¬ location <:+ place) :
    ((root.modify f location).at? place).map bare = (root.at? place).map bare := by
  induction location generalizing f place with
  | nil => exact absurd (List.nil_suffix) h
  | cons name parent ih =>
    rw [modify]
    by_cases hparent : parent <:+ place
    · obtain ⟨names, rfl⟩ := hparent
      rw [at?_modify_append, at?_append root]
      cases root.at? parent with
      | none => rfl
      | some node =>
        rcases List.eq_nil_or_concat names with rfl | ⟨names, name', rfl⟩
        · cases node <;> rfl
        · have hne : name' ≠ name := by
            rintro rfl
            exact h ⟨names, by simp⟩
          simp only [Option.bind_some, List.concat_eq_append, at?_append _ names, at?_cons, at?_nil]
          cases node with
          | directory mode entries =>
            simp only [child?, lookup_mapEntry, if_neg hne]
            cases entries.lookup name' <;> rfl
          | _ => rfl
    · exact ih _ hparent

/-- Below the place of a new node, the nodes below it are found. -/
theorem at?_put_append {root node : Node} {name : FileName} {parent : Location} {mode : Mode}
    {entries : List (FileName × Node)} (h : root.at? parent = some (.directory mode entries))
    (names : Location) : (root.put node (name :: parent)).at? (names ++ name :: parent) = node.at? names := by
  rw [put, List.append_cons, at?_modify_append, h]
  simp [at?_append _ names, at?_cons, child?, lookup_insertEntry]

/-- A new node changes nothing elsewhere, entries aside. -/
theorem bare_at?_put (root node : Node) {name : FileName} {parent place : Location}
    (h : ¬ name :: parent <:+ place) :
    ((root.put node (name :: parent)).at? place).map bare = (root.at? place).map bare := by
  rw [put]
  by_cases hparent : parent <:+ place
  · obtain ⟨names, rfl⟩ := hparent
    rw [at?_modify_append, at?_append root]
    cases root.at? parent with
    | none => rfl
    | some node' =>
      rcases List.eq_nil_or_concat names with rfl | ⟨names, name', rfl⟩
      · cases node' <;> rfl
      · have hne : name' ≠ name := by
          rintro rfl
          exact h ⟨names, by simp⟩
        simp only [Option.bind_some, List.concat_eq_append, at?_append _ names, at?_cons, at?_nil]
        cases node' with
        | directory mode entries => simp [child?, lookup_insertEntry, if_neg hne]
        | _ => rfl
  · exact bare_at?_modify root _ hparent

end Node

namespace FileSystem

theorem entryOf_bare (files : FileSystem) (node : Node) : files.entryOf node.bare = files.entryOf node := by
  cases node <;> rfl

theorem get?_eq_map_bare (files : FileSystem) (place : Location) :
    files.get? place = ((files.node? place).map Node.bare).map files.entryOf := by
  rw [get?, Option.map_map]
  congr 1
  funext node
  exact (files.entryOf_bare node).symm

/-- A new node without entries, in a directory, is found at its place; what is found elsewhere stays, if
nothing was below the place. -/
theorem get?_put {files : FileSystem} {name : FileName} {parent : Location} {node : Node}
    {hnode : node.Ordered} {mode : Mode} {entries : List (FileName × Node)}
    (hparent : files.node? parent = some (.directory mode entries)) (hbare : node.bare = node)
    (hbelow : ∀ names, names ≠ [] → files.node? (names ++ name :: parent) = none) (place : Location) :
    (files.put (name :: parent) node hnode).get? place =
      if place = name :: parent then some (files.entryOf node) else files.get? place := by
  have hsame : (files.put (name :: parent) node hnode).entryOf = files.entryOf := by
    funext node
    cases node <;> rfl
  have hnone : ∀ names : Location, names ≠ [] → node.at? names = none := by
    intro names hnames
    rcases List.eq_nil_or_concat names with rfl | ⟨names, name', rfl⟩
    · exact absurd rfl hnames
    · rw [List.concat_eq_append, Node.at?_append, ← hbare]
      cases node <;> rfl
  by_cases hplace : name :: parent <:+ place
  · obtain ⟨names, rfl⟩ := hplace
    by_cases hnames : names = []
    · subst hnames
      rw [if_pos (List.nil_append _), get?, hsame, node?, put, Node.at?_put_append hparent]
      rfl
    · rw [if_neg (by simpa using hnames), get?, node?, put, Node.at?_put_append hparent,
        hnone names hnames, get?, hbelow names hnames]
      rfl
  · rw [if_neg (by rintro rfl; exact hplace List.suffix_rfl), get?_eq_map_bare, get?_eq_map_bare, hsame]
    exact congrArg _ (Node.bare_at?_put files.root node hplace)

end FileSystem

end ConsoleKit
