import Campus.Disk
import Campus.Proofs.Assoc

/-!
# What changes in a tree

`Tree.put` and `Tree.erase` change what is at one path and below it, and nothing else. What is put
where no directory was, leaves every directory a directory (`Tree.HasDirectory.put`), so whoever
follows steps through directories comes to the same path afterwards. Erasing takes back a directory
that was put where nothing was (`Tree.erase_put`, `Tree.erase_of_missing`).
-/

namespace Campus.Tree

variable {t : Tree} {path q : Path}

/-- There is a directory at the path. -/
def HasDirectory (t : Tree) (path : Path) : Prop :=
  ∃ entries, t.find? path = some (.directory entries)

@[simp] theorem entries_file (content : ByteArray) : (file content).entries = [] := rfl

@[simp] theorem entries_directory (entries : List (String × Tree)) :
    (directory entries).entries = entries := rfl

@[simp] theorem find?_nil (t : Tree) : t.find? [] = some t := rfl

theorem find?_cons (t : Tree) (name : String) (path : Path) :
    t.find? (name :: path) = (t.entries.lookup name).bind (·.find? path) := rfl

theorem exists_of_isDirectory (h : t.isDirectory = true) : ∃ entries, t = .directory entries := by
  cases t with
  | file content => cases h
  | directory entries => exact ⟨entries, rfl⟩

theorem hasDirectory_nil : t.HasDirectory [] ↔ t.isDirectory = true := by
  cases t <;> simp [HasDirectory, isDirectory]

theorem hasDirectory_cons {name : String} :
    t.HasDirectory (name :: path) ↔
      ∃ child, t.entries.lookup name = some child ∧ child.HasDirectory path := by
  simp only [HasDirectory, find?_cons, Option.bind_eq_some_iff]
  exact ⟨fun ⟨entries, child, hchild, h⟩ => ⟨child, hchild, entries, h⟩,
    fun ⟨child, hchild, entries, h⟩ => ⟨entries, child, hchild, h⟩⟩

theorem hasDirectory_iff :
    t.HasDirectory path ↔ ∃ node, t.find? path = some node ∧ node.isDirectory = true := by
  constructor
  · intro h
    obtain ⟨entries, h⟩ := h
    exact ⟨_, h, rfl⟩
  · intro h
    obtain ⟨_ | entries, h, hdirectory⟩ := h
    · cases hdirectory
    · exact ⟨entries, h⟩

theorem HasDirectory.isSome (h : t.HasDirectory path) : (t.find? path).isSome = true := by
  obtain ⟨entries, h⟩ := h
  simp [h]

/-- What lies around something is a directory. -/
theorem hasDirectory_of_isSome_append {name : String} {rest : Path}
    (h : (t.find? (path ++ name :: rest)).isSome = true) : t.HasDirectory path := by
  rw [find?_append] at h
  cases hpath : t.find? path with
  | none => simp [hpath] at h
  | some node =>
      cases node with
      | file content => simp [hpath, find?_cons] at h
      | directory entries => exact ⟨entries, hpath⟩

theorem HasDirectory.above (h : t.HasDirectory q) (hbelow : path <+: q) :
    t.HasDirectory path := by
  obtain ⟨_ | ⟨name, rest⟩, rfl⟩ := hbelow
  · rwa [List.append_nil] at h
  · exact hasDirectory_of_isSome_append h.isSome

theorem not_isSome_file_cons {content : ByteArray} {name : String} :
    ((file content).find? (name :: path)).isSome = false := by
  simp [find?_cons]

/-! ### Putting -/

/-- What is put below a path is put into what is there. -/
theorem find?_put_above {node : Tree} (h : t.find? path = some node) (rest : Path) (new : Tree) :
    (t.put (path ++ rest) new).find? path = some (node.put rest new) := by
  induction path generalizing t with
  | nil =>
      cases h
      rfl
  | cons name path ih =>
      simp only [find?_cons, Option.bind_eq_some_iff] at h
      obtain ⟨child, hchild, hpath⟩ := h
      simp [put, find?_cons, hchild, Assoc.lookup_put_self, ih hpath]

/-- What is put below something that has been put is put into it first. -/
theorem put_append (t : Tree) (path : Path) (node : Tree) (rest : Path) (new : Tree) :
    (t.put path node).put (path ++ rest) new = t.put path (node.put rest new) := by
  induction path generalizing t with
  | nil => rfl
  | cons name path ih =>
      rw [List.cons_append, put, put, put, entries_directory, Assoc.lookup_put_self,
        Option.getD_some, ih, Assoc.put_put]

theorem put_put (t : Tree) (path : Path) (node new : Tree) :
    (t.put path node).put path new = t.put path new := by
  have happend := put_append t path node [] new
  rwa [List.append_nil] at happend

theorem put_find? {node : Tree} (h : t.find? path = some node) : t.put path node = t := by
  induction path generalizing t with
  | nil =>
      cases h
      rfl
  | cons name path ih =>
      rw [find?_cons, Option.bind_eq_some_iff] at h
      obtain ⟨child, hchild, hpath⟩ := h
      cases t with
      | file content => cases hchild
      | directory entries =>
          rw [entries_directory] at hchild
          rw [put, entries_directory, hchild, Option.getD_some, ih hpath, Assoc.put_lookup hchild]

/-- Elsewhere nothing changes. -/
theorem find?_put_of_unrelated (h : ¬ q <+: path) (h' : ¬ path <+: q) (new : Tree) :
    (t.put path new).find? q = t.find? q := by
  induction path generalizing t q with
  | nil => exact absurd List.nil_prefix h'
  | cons name path ih =>
      cases q with
      | nil => exact absurd List.nil_prefix h
      | cons other q =>
          rw [find?_cons, find?_cons]
          by_cases heq : other = name
          · subst heq
            rw [List.cons_prefix_cons, not_and] at h h'
            have hchild := ih (t := (t.entries.lookup other).getD empty) (h rfl) (h' rfl)
            -- Without an entry of that name, `put` goes on in an empty directory.
            cases hlookup : t.entries.lookup other with
            | some child => simpa [put, hlookup, Assoc.lookup_put_self] using hchild
            | none =>
                have hnone : empty.find? q = none := by
                  cases q with
                  | nil => exact absurd List.nil_prefix (h rfl)
                  | cons next q => simp [empty, find?_cons]
                rw [hlookup, Option.getD_none, hnone] at hchild
                simpa [put, hlookup, Assoc.lookup_put_self] using hchild
          · simp [put, Assoc.lookup_put_of_ne heq]

theorem HasDirectory.put (h : t.HasDirectory q) (hpath : ¬ t.HasDirectory path) (new : Tree) :
    (t.put path new).HasDirectory q := by
  induction path generalizing t q with
  | nil =>
      -- The whole tree is a file, which has no directories.
      rw [hasDirectory_nil] at hpath
      cases t with
      | directory entries => exact absurd rfl hpath
      | file content =>
          cases q with
          | nil => exact absurd (hasDirectory_nil.mp h) hpath
          | cons other q => simpa [not_isSome_file_cons] using h.isSome
  | cons name path ih =>
      cases q with
      | nil => exact hasDirectory_nil.mpr rfl
      | cons other q =>
          obtain ⟨child, hchild, hq⟩ := hasDirectory_cons.mp h
          rw [hasDirectory_cons]
          by_cases heq : other = name
          · subst heq
            refine ⟨_, Assoc.lookup_put_self _ _ _, ?_⟩
            rw [hchild]
            exact ih hq fun hfull => hpath (hasDirectory_cons.mpr ⟨child, hchild, hfull⟩)
          · exact ⟨child, (Assoc.lookup_put_of_ne heq _ _).trans hchild, hq⟩

/-- What is there stays there when something is put where nothing was. -/
theorem isSome_find?_put (h : (t.find? q).isSome = true) (hpath : t.find? path = none)
    (new : Tree) : ((t.put path new).find? q).isSome = true := by
  induction path generalizing t q with
  | nil => simp at hpath
  | cons name path ih =>
      cases q with
      | nil => simp
      | cons other q =>
          rw [find?_cons] at h hpath ⊢
          by_cases heq : other = name
          · subst heq
            cases hchild : t.entries.lookup other with
            | none => simp [hchild] at h
            | some child =>
                rw [hchild] at h hpath
                simpa [Tree.put, hchild, Assoc.lookup_put_self] using ih h hpath
          · simpa [Tree.put, Assoc.lookup_put_of_ne heq] using h

/-- A file stays as it is when something is put into a directory where nothing was. -/
theorem find?_put_of_file {content : ByteArray} {above : Path} {name : String}
    (h : t.find? q = some (.file content)) (haround : t.HasDirectory above)
    (hmissing : t.find? (above ++ [name]) = none) (new : Tree) :
    (t.put (above ++ [name]) new).find? q = some (.file content) := by
  have hnot : ¬ t.HasDirectory q := by
    intro hdirectory
    obtain ⟨entries, hq⟩ := hdirectory
    rw [h] at hq
    cases hq
  rw [find?_put_of_unrelated _ _ new, h]
  · intro hq
    rcases List.prefix_concat_iff.mp (by simpa using hq) with rfl | ⟨rest, hrest⟩
    · rw [h] at hmissing
      cases hmissing
    · cases rest with
      | nil =>
          rw [List.append_nil] at hrest
          exact hnot (hrest ▸ haround)
      | cons next rest => exact hnot (hasDirectory_of_isSome_append (hrest ▸ haround.isSome))
  · intro hbelow
    obtain ⟨rest, rfl⟩ := hbelow
    rw [find?_append, hmissing] at h
    cases h

/-! ### Erasing -/

theorem erase_cons_append (entries : List (String × Tree)) (first name : String) (above : Path) :
    (directory entries).erase (first :: (above ++ [name])) =
      match entries.lookup first with
      | some t => .directory (Assoc.put first (t.erase (above ++ [name])) entries)
      | none => .directory entries := by
  cases above <;> rfl

theorem find?_erase_self {above : Path} {name : String} (h : t.HasDirectory above) :
    (t.erase (above ++ [name])).find? (above ++ [name]) = none := by
  induction above generalizing t with
  | nil =>
      cases t with
      | file content => simp [hasDirectory_nil, isDirectory] at h
      | directory entries =>
          have hname : name ∉ Assoc.names (entries.filter fun entry => entry.1 != name) := by
            simp [Assoc.names]
          simp [erase, find?_cons, Assoc.lookup_eq_none.mpr hname]
  | cons first above ih =>
      obtain ⟨child, hchild, habove⟩ := hasDirectory_cons.mp h
      cases t with
      | file content => simp at hchild
      | directory entries =>
          rw [entries_directory] at hchild
          rw [List.cons_append, erase_cons_append, hchild]
          simpa [find?_cons, Assoc.lookup_put_self] using ih habove

/-- What is erased below a path is erased from what is there. -/
theorem find?_erase_above (t : Tree) (path : Path) (name : String) (rest : Path) :
    (t.erase (path ++ name :: rest)).find? path = (t.find? path).map (·.erase (name :: rest)) := by
  induction path generalizing t with
  | nil => rfl
  | cons first path ih =>
      obtain ⟨next, behind, hbehind⟩ : ∃ next behind, path ++ name :: rest = next :: behind := by
        cases path <;> exact ⟨_, _, rfl⟩
      rw [hbehind] at ih
      cases t with
      | file content => rfl
      | directory entries =>
          rw [List.cons_append, hbehind, find?_cons, find?_cons]
          simp only [erase, entries_directory]
          cases hchild : entries.lookup first with
          | none => simp [hchild]
          | some child => simp [Assoc.lookup_put_self, ih]

/-- Elsewhere nothing changes. -/
theorem find?_erase_of_unrelated (h : ¬ q <+: path) (h' : ¬ path <+: q) :
    (t.erase path).find? q = t.find? q := by
  induction path generalizing t q with
  | nil => exact absurd List.nil_prefix h'
  | cons name path ih =>
      cases q with
      | nil => exact absurd List.nil_prefix h
      | cons other q =>
          cases t with
          | file content => cases path <;> rfl
          | directory entries =>
              rw [find?_cons, find?_cons, entries_directory]
              cases path with
              | nil =>
                  have hne : other ≠ name := by
                    rintro rfl
                    exact h' ⟨q, rfl⟩
                  rw [erase, entries_directory, Assoc.lookup_filter_ne hne]
              | cons next path =>
                  simp only [erase]
                  cases hchild : entries.lookup name with
                  | none => rfl
                  | some child =>
                      by_cases heq : other = name
                      · subst heq
                        rw [List.cons_prefix_cons, not_and] at h h'
                        rw [entries_directory, Assoc.lookup_put_self, hchild]
                        exact ih (h rfl) (h' rfl)
                      · rw [entries_directory, Assoc.lookup_put_of_ne heq]

theorem erase_erase (t : Tree) (path : Path) : (t.erase path).erase path = t.erase path := by
  induction path generalizing t with
  | nil => rfl
  | cons name path ih =>
      cases t with
      | file content => cases path <;> rfl
      | directory entries =>
          cases path with
          | nil => simp [erase]
          | cons next path =>
              simp only [erase]
              cases hchild : entries.lookup name with
              | none => simp [erase, hchild]
              | some child => simp [erase, Assoc.lookup_put_self, ih, Assoc.put_put]

theorem isDirectory_erase (t : Tree) (path : Path) :
    (t.erase path).isDirectory = t.isDirectory := by
  unfold erase
  split
  · rfl
  · rfl
  · rfl
  · split <;> rfl

/-- What does not lie at or below the path is a directory if it was one. -/
theorem hasDirectory_erase_iff (hq : ¬ path <+: q) :
    (t.erase path).HasDirectory q ↔ t.HasDirectory q := by
  by_cases habove : q <+: path
  · obtain ⟨_ | ⟨name, rest⟩, rfl⟩ := habove
    · exact absurd (by simp) hq
    · rw [hasDirectory_iff, hasDirectory_iff, find?_erase_above]
      cases t.find? q <;> simp [isDirectory_erase]
  · rw [HasDirectory, HasDirectory, find?_erase_of_unrelated habove hq]

/-- What does not lie below a path stays there when that path is erased. -/
theorem isSome_find?_erase (h : (t.find? q).isSome = true) (hq : ¬ path <+: q) :
    ((t.erase path).find? q).isSome = true := by
  by_cases habove : q <+: path
  · obtain ⟨_ | ⟨name, rest⟩, rfl⟩ := habove
    · exact absurd (by simp) hq
    · rwa [find?_erase_above, Option.isSome_map]
  · rwa [find?_erase_of_unrelated habove hq]

/-- What was put at or below a path is erased with it. -/
theorem erase_put {above : Path} {name : String} (h : t.HasDirectory above) (rest : Path)
    (new : Tree) :
    (t.put (above ++ name :: rest) new).erase (above ++ [name]) = t.erase (above ++ [name]) := by
  induction above generalizing t with
  | nil =>
      cases t with
      | file content => simp [hasDirectory_nil, isDirectory] at h
      | directory entries => simp [put, erase, Assoc.filter_put]
  | cons first above ih =>
      obtain ⟨child, hchild, habove⟩ := hasDirectory_cons.mp h
      cases t with
      | file content => simp at hchild
      | directory entries =>
          rw [entries_directory] at hchild
          rw [List.cons_append, List.cons_append, put, erase_cons_append, erase_cons_append,
            entries_directory, hchild, Assoc.lookup_put_self]
          simp [ih habove, Assoc.put_put]

/-- Erasing what is not there changes nothing. -/
theorem erase_of_missing {above : Path} {name : String} (h : t.HasDirectory above)
    (hmissing : t.find? (above ++ [name]) = none) : t.erase (above ++ [name]) = t := by
  induction above generalizing t with
  | nil =>
      cases t with
      | file content => rfl
      | directory entries =>
          have hname : name ∉ Assoc.names entries := by
            rw [← Assoc.lookup_eq_none]
            simpa [find?_cons] using hmissing
          have hfilter : entries.filter (fun entry => entry.1 != name) = entries := by
            rw [List.filter_eq_self]
            rintro ⟨other, child⟩ hmem
            have hother := Assoc.mem_names_of_mem hmem
            simpa using fun heq : other = name => hname (heq ▸ hother)
          simp [erase, hfilter]
  | cons first above ih =>
      obtain ⟨child, hchild, habove⟩ := hasDirectory_cons.mp h
      cases t with
      | file content => simp at hchild
      | directory entries =>
          rw [entries_directory] at hchild
          rw [List.cons_append, find?_cons, entries_directory, hchild] at hmissing
          rw [List.cons_append, erase_cons_append, hchild]
          simp [ih habove hmissing, Assoc.put_lookup hchild]

end Campus.Tree
