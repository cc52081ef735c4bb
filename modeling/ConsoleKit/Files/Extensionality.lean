import ConsoleKit.Files.Lookup

/-!
# A tree is what is found in it

Two ordered trees in which the same is found at every place are equal. Two ways of arriving at a file system
can therefore be compared by what is found at each place, and the order in which entries were made cannot be
told from the result.
-/

namespace ConsoleKit.Node

theorem lookup_eq_none_of_lt {name : FileName} {entries : List (FileName × Node)}
    (h : ∀ entry ∈ entries, name < entry.1) : entries.lookup name = none := by
  induction entries with
  | nil => rfl
  | cons head entries ih =>
    obtain ⟨key, value⟩ := head
    have hkey : (name == key) = false := by
      simp only [beq_eq_false_iff_ne, ne_eq]
      rintro rfl
      exact FileName.lt_irrefl _ (h (name, value) (.head _))
    rw [List.lookup_cons, hkey]
    exact ih fun entry hentry => h entry (.tail _ hentry)

theorem mem_of_lookup_eq_some {name : FileName} {node : Node} {entries : List (FileName × Node)}
    (h : entries.lookup name = some node) : (name, node) ∈ entries := by
  induction entries with
  | nil => simp at h
  | cons head entries ih => grind

/-- Entries in ascending order are determined by the nodes under the names. -/
theorem Ascending.ext {entries entries' : List (FileName × Node)} (h : Ascending entries)
    (h' : Ascending entries') (hlookup : ∀ name, entries.lookup name = entries'.lookup name) :
    entries = entries' := by
  induction entries generalizing entries' with
  | nil =>
    cases entries' with
    | nil => rfl
    | cons head' entries' =>
      obtain ⟨key', value'⟩ := head'
      simpa using hlookup key'
  | cons head entries ih =>
    cases entries' with
    | nil =>
      obtain ⟨key, value⟩ := head
      simpa using hlookup key
    | cons head' entries' =>
      obtain ⟨key, value⟩ := head
      obtain ⟨key', value'⟩ := head'
      obtain ⟨hlt, hrest⟩ := List.pairwise_cons.1 h
      obtain ⟨hlt', hrest'⟩ := List.pairwise_cons.1 h'
      have hkey : key = key' := by
        by_cases hk : key < key'
        · have hnone : ((key', value') :: entries').lookup key = none :=
            lookup_eq_none_of_lt fun entry hentry => by
              rcases List.mem_cons.1 hentry with rfl | hentry
              · exact hk
              · exact FileName.lt_trans hk (hlt' entry hentry)
          simpa [hnone] using hlookup key
        · by_cases hk' : key' < key
          · have hnone : ((key, value) :: entries).lookup key' = none :=
              lookup_eq_none_of_lt fun entry hentry => by
                rcases List.mem_cons.1 hentry with rfl | hentry
                · exact hk'
                · exact FileName.lt_trans hk' (hlt entry hentry)
            simpa [hnone] using hlookup key'
          · by_cases heq : key = key'
            · exact heq
            · exact absurd (FileName.lt_of_not_lt_of_ne hk heq) hk'
      subst hkey
      have hvalue : value = value' := by simpa using hlookup key
      subst hvalue
      have htail : entries = entries' := by
        refine ih hrest hrest' fun name => ?_
        by_cases hname : name = key
        · rw [hname, lookup_eq_none_of_lt hlt, lookup_eq_none_of_lt hlt']
        · have := hlookup name
          grind
      rw [htail]

/-- An ordered tree is determined by what is found at each place. -/
theorem Ordered.ext {a b : Node} (ha : a.Ordered) (hb : b.Ordered)
    (h : ∀ place, (a.at? place).map bare = (b.at? place).map bare) : a = b := by
  induction ha generalizing b with
  | @directory mode entries ascending entries_ordered ih =>
    have hroot := h []
    cases hb with
    | @directory mode' entries' ascending' entries_ordered' =>
      have hmode : mode = mode' := by simpa [bare] using hroot
      subst hmode
      refine congrArg _ (ascending.ext ascending' fun name => ?_)
      have hbelow : ∀ names : Location,
          ((entries.lookup name).bind fun node => node.at? names).map bare =
            ((entries'.lookup name).bind fun node => node.at? names).map bare := by
        intro names
        have := h (names ++ [name])
        rwa [at?_append, at?_append] at this
      cases hchild : entries.lookup name with
      | none =>
        have := hbelow []
        cases hchild' : entries'.lookup name with
        | none => rfl
        | some node' => simp [hchild, hchild'] at this
      | some node =>
        cases hchild' : entries'.lookup name with
        | none =>
          have := hbelow []
          simp [hchild, hchild'] at this
        | some node' =>
          refine congrArg some (ih _ (mem_of_lookup_eq_some hchild)
            (entries_ordered' _ (mem_of_lookup_eq_some hchild')) fun names => ?_)
          have := hbelow names
          rwa [hchild, hchild'] at this
    | _ => simp [bare] at hroot
  | _ =>
    have hroot := h []
    cases hb <;> simp_all [bare]

end ConsoleKit.Node

namespace ConsoleKit.FileSystem

/-- The trees of two file systems are equal if the same is found in them at every place. -/
theorem root_eq_of_bare {files files' : FileSystem}
    (h : ∀ place, (files.node? place).map Node.bare = (files'.node? place).map Node.bare) :
    files.root = files'.root :=
  files.ordered.ext files'.ordered h

end ConsoleKit.FileSystem
