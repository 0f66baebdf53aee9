import Campus.Proofs.Disk.Access
import Campus.RecordFile

/-!
# Writing files into a directory

A file that is written into a directory takes the place of the entry of its name, or is added
behind the others; nothing else changes in the directory (`Tree.HasEntries.writeFiles`). Directories
that are made somewhere bring no files with them (`Tree.Makes.recordFilesAmong_eq`), and have none
themselves (`Tree.Makes.recordFilesAmong_eq_nil`).
-/

namespace Campus

namespace Tree

variable {t t' : Tree} {place : Place} {steps : List Step} {path : Path} {name : String}
  {content : ByteArray} {entries : List (String × Tree)}

/-- Where a place is, what is there is a directory with these entries. -/
def HasEntries (t : Tree) (place : Place) (path : Path) (entries : List (String × Tree)) : Prop :=
  t.locate place = .ok ⟨path, some (.directory entries)⟩

theorem HasEntries.error?_eq_none (h : t.HasEntries place path entries) : place.error? = none := by
  unfold HasEntries locate at h
  split at h
  · cases h
  · assumption

theorem HasEntries.spot_eq (h : t.HasEntries place path entries) :
    t.spot place.steps = .ok ⟨path, some (.directory entries)⟩ := by
  rw [← locate_eq_spot h.error?_eq_none]
  exact h

theorem HasEntries.find?_eq (h : t.HasEntries place path entries) :
    t.find? path = some (.directory entries) :=
  find?_spot h.spot_eq

theorem HasEntries.list_eq (h : t.HasEntries place path entries) : t.list place = .ok entries := by
  unfold HasEntries at h
  rw [list, h]

theorem hasEntries_of_list (h : t.list place = .ok entries) :
    ∃ path, t.HasEntries place path entries := by
  unfold list at h
  split at h
  · cases h
  · cases h
  · cases h
  · next path entries hlocate =>
    cases h
    exact ⟨path, hlocate⟩

/-- A directory is found at the same path wherever all directories are still directories. -/
theorem HasEntries.of_directories (h : t.HasEntries place path entries)
    (hdirectories : ∀ q, t.HasDirectory q → t'.HasDirectory q)
    {entries' : List (String × Tree)} (hfind : t'.find? path = some (.directory entries')) :
    t'.HasEntries place path entries' := by
  unfold HasEntries
  rw [locate_eq_spot h.error?_eq_none, spot_of_directories hdirectories h.spot_eq, hfind]

/-- An entry of a directory that is found itself. -/
theorem eq_of_spot_child {s : Spot} (h : t.spot steps = .ok ⟨path, some (.directory entries)⟩)
    (hs : t.spot (steps ++ [.down name]) = .ok s) : s = ⟨path ++ [name], entries.lookup name⟩ := by
  obtain ⟨path', entries', hspot, -, rfl⟩ := spot_child_eq_ok_iff.mp hs
  rw [h] at hspot
  cases hspot
  rfl

theorem HasEntries.locate_child {s : Spot} (h : t.HasEntries place path entries)
    (hs : t.locate (place.child name) = .ok s) : s = ⟨path ++ [name], entries.lookup name⟩ := by
  unfold locate at hs
  split at hs
  · cases hs
  · exact eq_of_spot_child h.spot_eq hs

theorem HasEntries.write_child (h : t.HasEntries place path entries)
    (hwrite : t.write (place.child name) content = .ok t') :
    t' = t.put path (.directory (Assoc.put name (.file content) entries)) ∧
      t'.HasEntries place path (Assoc.put name (.file content) entries) := by
  unfold write at hwrite
  split at hwrite
  · cases hwrite
  · cases hwrite
  · next written node? hno hlocate =>
    have hspot := h.locate_child hlocate
    cases hspot
    cases hwrite
    have hput : t.put (path ++ [name]) (.file content) =
        t.put path (.directory (Assoc.put name (.file content) entries)) := by
      conv_lhs => rw [← put_find? h.find?_eq, put_append]
      rfl
    have hfile : ¬ t.HasDirectory (path ++ [name]) := by
      intro hdirectory
      obtain ⟨inner, hinner⟩ := hdirectory
      rw [find?_append, h.find?_eq] at hinner
      simp only [Option.bind_some, find?_cons, entries_directory, find?_nil,
        Option.bind_fun_some] at hinner
      exact hno inner hinner
    refine ⟨hput, h.of_directories (fun q hq => hq.put hfile _) ?_⟩
    rw [hput, find?_put]

theorem names_ofFiles (files : List (String × Json)) :
    Assoc.names (ofFiles files) = Assoc.names files :=
  Assoc.names_map_snd (fun v : Json => file v.toText.toUTF8) files

/-- Files that are written one after the other set the entries of their directory, and nothing
else. -/
theorem HasEntries.writeEach {files : List (String × Json)} (h : t.HasEntries place path entries)
    (hwrite : Campus.writeEach place files t = .ok t') :
    t' = t.put path (.directory (Assoc.putAll entries (ofFiles files))) ∧
      t'.HasEntries place path (Assoc.putAll entries (ofFiles files)) := by
  induction files generalizing t entries with
  | nil =>
      cases hwrite
      exact ⟨(put_find? h.find?_eq).symm, h⟩
  | cons f files ih =>
      obtain ⟨name, value⟩ := f
      unfold Campus.writeEach at hwrite
      split at hwrite
      · next written hfirst =>
        obtain ⟨hput, hentries⟩ := h.write_child hfirst
        obtain ⟨hrest, hafter⟩ := ih hentries hwrite
        refine ⟨?_, hafter⟩
        rw [hrest, hput, put_put]
        rfl
      · cases hwrite

/-! ### Files that nothing is in the way of -/

/-- A directory leads on to a name that it admits. -/
theorem HasEntries.locate_child_of_admits (h : t.HasEntries place path entries)
    (hadmits : place.admits name = true) :
    t.locate (place.child name) = .ok ⟨path ++ [name], entries.lookup name⟩ := by
  simp only [Place.admits, Bool.and_eq_true, Option.isNone_iff_eq_none, decide_eq_true_eq]
    at hadmits
  rw [locate_eq_spot hadmits.1]
  exact spot_child_eq_ok_iff.mpr ⟨path, entries, h.spot_eq, by omega, rfl⟩

/-- The name of a directory that is found in another is admitted there. -/
theorem HasEntries.admits (h : t.HasEntries (place.child name) path entries) :
    place.admits name = true := by
  obtain ⟨-, -, -, hshort, -⟩ := spot_child_eq_ok_iff.mp h.spot_eq
  simp only [Place.admits, h.error?_eq_none, Option.isNone_none, Bool.true_and, decide_eq_true_eq]
  omega

/-- A file is written into a directory that admits it and has no directory of its name. -/
theorem HasEntries.exists_write_child (h : t.HasEntries place path entries)
    (hadmits : place.admits name = true) (hnew : name ∉ Assoc.names entries)
    (content : ByteArray) : ∃ t', t.write (place.child name) content = .ok t' := by
  have hlocate := h.locate_child_of_admits hadmits
  rw [Assoc.lookup_eq_none.mpr hnew] at hlocate
  exact ⟨t.put (path ++ [name]) (.file content), by rw [write, hlocate]⟩

theorem HasEntries.exists_writeEach {files : List (String × Json)}
    (h : t.HasEntries place path entries) (hadmits : ∀ f ∈ files, place.admits f.1 = true)
    (hnames : (Assoc.names entries ++ Assoc.names files).Nodup) :
    ∃ t', Campus.writeEach place files t = .ok t' := by
  induction files generalizing t entries with
  | nil => exact ⟨t, rfl⟩
  | cons f files ih =>
      obtain ⟨name, value⟩ := f
      rw [List.forall_mem_cons] at hadmits
      rw [Assoc.names_cons, List.nodup_middle, List.nodup_cons, List.mem_append, not_or] at hnames
      obtain ⟨written, hwritten⟩ :=
        h.exists_write_child hadmits.1 hnames.1.1 value.toText.toUTF8
      have hnames' : Assoc.names (Assoc.put name (file value.toText.toUTF8) entries) =
          Assoc.names entries ++ [name] := by
        rw [Assoc.names_put, if_neg hnames.1.1]
      obtain ⟨t', ht'⟩ := ih (h.write_child hwritten).2 hadmits.2 (by
        rw [hnames', List.append_assoc, List.singleton_append, List.nodup_middle, List.nodup_cons,
          List.mem_append, not_or]
        exact hnames)
      exact ⟨t', by rw [Campus.writeEach, hwritten]; exact ht'⟩

theorem trans_precedes {a b c : String} (h : precedes a b = true) (h' : precedes b c = true) :
    precedes a c = true := by
  simp only [precedes, Bool.or_eq_true, Bool.and_eq_true, decide_eq_true_eq, beq_iff_eq] at h h' ⊢
  rcases h with h | ⟨h, hlt⟩ <;> rcases h' with h' | ⟨h', hlt'⟩
  · exact .inl (by omega)
  · exact .inl (by omega)
  · exact .inl (by omega)
  · exact .inr ⟨by omega, String.lt_trans hlt hlt'⟩

theorem nodup_of_isNumbered {names : List String} (h : isNumbered names = true) : names.Nodup := by
  have hpairwise : names.Pairwise fun a b => precedes a b = true := by
    induction names with
    | nil => exact .nil
    | cons name names ih =>
        cases names with
        | nil => exact List.pairwise_singleton _ _
        | cons next names =>
            rw [isNumbered, Bool.and_eq_true] at h
            have hrest := ih h.2
            refine List.pairwise_cons.mpr ⟨List.forall_mem_cons.mpr ⟨h.1, fun other hother => ?_⟩,
              hrest⟩
            exact trans_precedes h.1 ((List.pairwise_cons.mp hrest).1 other hother)
  refine hpairwise.imp fun {a b} hab => ?_
  rintro rfl
  simp [precedes] at hab

/-- Files that are written all at once might as well be written one after the other. -/
theorem writeFiles_eq_writeEach (place : Place) (files : List (String × Json)) (t : Tree) :
    Campus.writeFiles place files t = Campus.writeEach place files t := by
  unfold Campus.writeFiles
  split
  · next path hlocate =>
    have hentries : t.HasEntries place path [] := hlocate
    split
    · next hclear =>
      rw [Bool.and_eq_true, List.all_eq_true] at hclear
      have hnodup : (Assoc.names files).Nodup := nodup_of_isNumbered hclear.1
      obtain ⟨t', ht'⟩ := hentries.exists_writeEach hclear.2 hnodup
      obtain ⟨hput, -⟩ := hentries.writeEach ht'
      rw [Assoc.putAll_eq_append (by rwa [List.nil_append, names_ofFiles]),
        List.nil_append] at hput
      rw [ht', hput]
    · rfl
  · rfl

theorem HasEntries.writeFiles {files : List (String × Json)} (h : t.HasEntries place path entries)
    (hwrite : Campus.writeFiles place files t = .ok t') :
    t' = t.put path (.directory (Assoc.putAll entries (ofFiles files))) ∧
      t'.HasEntries place path (Assoc.putAll entries (ofFiles files)) :=
  h.writeEach (writeFiles_eq_writeEach place files t ▸ hwrite)

/-! ### Directories that are made -/

/-- A directory that is there need not be made. -/
theorem HasEntries.makeDirs_eq (h : t.HasEntries place path entries) :
    t.makeDirs place = (.ok (), t) := by
  unfold makeDirs
  rw [h.error?_eq_none]
  dsimp only
  cases hreverse : place.steps.reverse with
  | nil => rfl
  | cons step above =>
      have hsteps : (step :: above).reverse = place.steps := by
        rw [← hreverse, List.reverse_reverse]
      rw [makeWay, hsteps, makeDir, h.spot_eq]

/-- An entry of a directory is made a directory, if it is none yet, and nothing else is made. -/
theorem exists_of_makeDir_child (h : t.spot steps = .ok ⟨path, some (.directory entries)⟩)
    (hmade : t.makeDir (steps ++ [.down name]) = .ok t') :
    ∃ inner, (entries.lookup name).getD empty = .directory inner ∧
      t' = t.put (path ++ [name]) (.directory inner) ∧
      t'.spot (steps ++ [.down name]) = .ok ⟨path ++ [name], some (.directory inner)⟩ := by
  have hmakes := makeDir_makes hmade
  unfold makeDir at hmade
  split at hmade
  · cases hmade
  · next hspot =>
    cases hmade
    obtain ⟨rfl, hlookup⟩ := Spot.mk.inj (eq_of_spot_child h hspot)
    refine ⟨[], by rw [← hlookup]; rfl, rfl, ?_⟩
    rw [spot_of_directories (fun _ => hmakes.hasDirectory) hspot, find?_put]
    rfl
  · cases hmade
  · next inner hspot =>
    cases hmade
    obtain ⟨rfl, hlookup⟩ := Spot.mk.inj (eq_of_spot_child h hspot)
    exact ⟨inner, by rw [← hlookup]; rfl, (put_find? (find?_spot hspot)).symm, hspot⟩

/-- What is around an entry is there, so at most its own directory is made. -/
theorem makeDirs_child_cases (h : t.spot place.steps = .ok ⟨path, some (.directory entries)⟩)
    (name : String) :
    (∃ e, t.makeDirs (place.child name) = (.error e, t)) ∨
      ∃ made, (place.child name).error? = none ∧
        t.makeDir (place.steps ++ [.down name]) = .ok made ∧
        t.makeDirs (place.child name) = (.ok (), made) := by
  have hfound : t.makeDir (place.steps ++ [.down name]) ≠ .error .notFound := by
    rw [ne_eq, makeDir_eq_notFound_iff, spot_append, h]
    intro hmissing
    change t.follow path.reverse (some (.directory entries)) [.down name] = _ at hmissing
    simp only [follow] at hmissing
    split at hmissing <;> cases hmissing
  have hsteps : (place.child name).steps.reverse = .down name :: place.steps.reverse :=
    List.reverse_concat
  unfold makeDirs
  split
  · next e _ => exact .inl ⟨e, rfl⟩
  · next herror =>
    rw [hsteps, makeWay, List.reverse_cons, List.reverse_reverse]
    cases hmake : t.makeDir (place.steps ++ [.down name]) with
    | ok made => exact .inr ⟨made, herror, rfl, rfl⟩
    | error e =>
        rw [hmake] at hfound
        cases e <;> first | exact absurd rfl hfound | exact .inl ⟨_, rfl⟩

theorem makeDirs_child_eq_ok (h : t.spot place.steps = .ok ⟨path, some (.directory entries)⟩)
    (hmade : t.makeDirs (place.child name) = (.ok (), t')) :
    (place.child name).error? = none ∧ t.makeDir (place.steps ++ [.down name]) = .ok t' := by
  rcases makeDirs_child_cases h name with ⟨e, heq⟩ | ⟨made, herror, hmake, heq⟩
  · rw [hmade] at heq
    cases heq
  · rw [hmade] at heq
    cases heq
    exact ⟨herror, hmake⟩

/-- If an entry cannot be made a directory, nothing is made. -/
theorem eq_of_makeDirs_child_eq_error {e : DiskError}
    (h : t.spot place.steps = .ok ⟨path, some (.directory entries)⟩)
    (hmade : t.makeDirs (place.child name) = (.error e, t')) : t' = t := by
  rcases makeDirs_child_cases h name with ⟨e, heq⟩ | ⟨made, -, -, heq⟩
  · rw [hmade] at heq
    cases heq
    rfl
  · rw [hmade] at heq
    cases heq

/-- A directory that is made in a directory is an entry of it afterwards, as it was before if it was
there. -/
theorem makeDirs_child (h : t.spot place.steps = .ok ⟨path, some (.directory entries)⟩)
    (hmade : t.makeDirs (place.child name) = (.ok (), t')) :
    ∃ inner, (entries.lookup name).getD empty = .directory inner ∧
      t' = t.put (path ++ [name]) (.directory inner) ∧
      t'.spot place.steps =
        .ok ⟨path, some (.directory (Assoc.put name (.directory inner) entries))⟩ ∧
      t'.HasEntries (place.child name) (path ++ [name]) inner := by
  obtain ⟨herror, hmake⟩ := makeDirs_child_eq_ok h hmade
  have hmakes := makeDir_makes hmake
  obtain ⟨inner, hinner, hput, hspot⟩ := exists_of_makeDir_child h hmake
  refine ⟨inner, hinner, hput, ?_, (locate_eq_spot herror).trans hspot⟩
  rw [spot_of_directories (fun _ => hmakes.hasDirectory) h, hput, find?_put_above (find?_spot h)]
  rfl

theorem recordFilesAmong_eq_flatMap (entries : List (String × Tree)) :
    recordFilesAmong entries = entries.flatMap fun entry => entry.2.recordFiles entry.1 := by
  induction entries with
  | nil => rfl
  | cons entry entries ih =>
      obtain ⟨name, t⟩ := entry
      rw [recordFilesAmong, ih, List.flatMap_cons]

theorem recordFilesAmong_perm {entries' : List (String × Tree)} (h : entries.Perm entries') :
    (recordFilesAmong entries).Perm (recordFilesAmong entries') := by
  rw [recordFilesAmong_eq_flatMap, recordFilesAmong_eq_flatMap]
  exact h.flatMap_right _

theorem recordFilesAmong_append (entries entries' : List (String × Tree)) :
    recordFilesAmong (entries ++ entries') =
      recordFilesAmong entries ++ recordFilesAmong entries' := by
  simp only [recordFilesAmong_eq_flatMap, List.flatMap_append]

/-- An entry is replaced by one with the same record files. -/
theorem recordFilesAmong_put {child child' : Tree} (h : entries.lookup name = some child)
    (hfiles : child'.recordFiles name = child.recordFiles name) :
    recordFilesAmong (Assoc.put name child' entries) = recordFilesAmong entries := by
  induction entries with
  | nil => cases h
  | cons entry entries ih =>
      obtain ⟨other, node⟩ := entry
      by_cases heq : other = name
      · subst heq
        rw [List.lookup_cons_self, Option.some.injEq] at h
        subst h
        simp [Assoc.put, recordFilesAmong, hfiles]
      · rw [List.lookup_cons, beq_false_of_ne (Ne.symm heq)] at h
        rw [Assoc.put, if_neg heq, recordFilesAmong, recordFilesAmong, ih h]

/-- A directory that is made where nothing was has no files. -/
theorem recordFiles_put_empty {above : Path} (haround : t.HasDirectory above)
    (hmissing : t.find? (above ++ [name]) = none) (root : String) :
    (t.put (above ++ [name]) empty).recordFiles root = t.recordFiles root := by
  induction above generalizing t root with
  | nil =>
      cases t with
      | file content => simp [hasDirectory_nil, isDirectory] at haround
      | directory entries =>
          have hname : name ∉ Assoc.names entries := by
            rw [← Assoc.lookup_eq_none]
            simpa [find?_cons] using hmissing
          have hput : (directory entries).put [name] empty =
              .directory (entries ++ [(name, empty)]) := by
            simp [put, Assoc.put_of_not_mem hname]
          rw [List.nil_append, hput]
          simp [recordFiles, recordFilesAmong_append, recordFilesAmong, empty]
  | cons first above ih =>
      obtain ⟨child, hchild, habove⟩ := hasDirectory_cons.mp haround
      cases t with
      | file content => simp at hchild
      | directory entries =>
          rw [entries_directory] at hchild
          rw [List.cons_append, find?_cons, entries_directory, hchild] at hmissing
          rw [List.cons_append, put, entries_directory, hchild]
          simp only [recordFiles, Option.getD_some]
          rw [recordFilesAmong_put hchild (ih habove hmissing first)]

theorem exists_put_eq_directory (t : Tree) (above : Path) (name : String) (new : Tree) :
    ∃ entries, t.put (above ++ [name]) new = .directory entries := by
  cases above <;> exact ⟨_, rfl⟩

theorem recordFiles_directory_injective {root : String} {entries' : List (String × Tree)}
    (h : (directory entries').recordFiles root = (directory entries).recordFiles root) :
    recordFilesAmong entries' = recordFilesAmong entries := by
  have hinjective : Function.Injective fun f : Path × ByteArray => (root :: f.1, f.2) := by
    rintro ⟨path, content⟩ ⟨path', content'⟩ heq
    simpa using heq
  exact hinjective.list_map h

/-- A directory that is made somewhere in a directory brings no files into it. -/
theorem exists_put_empty_below {inner : Path} (hpath : t.find? path = some (.directory entries))
    (haround : t.HasDirectory (path ++ inner))
    (hmissing : t.find? (path ++ inner ++ [name]) = none) :
    ∃ entries', (t.put (path ++ inner ++ [name]) empty).find? path = some (.directory entries') ∧
      recordFilesAmong entries' = recordFilesAmong entries := by
  have haround' : (directory entries).HasDirectory inner := by
    obtain ⟨found, hfound⟩ := haround
    rw [find?_append, hpath] at hfound
    exact ⟨found, hfound⟩
  have hmissing' : (directory entries).find? (inner ++ [name]) = none := by
    rw [List.append_assoc, find?_append, hpath] at hmissing
    exact hmissing
  -- Within the directory this is the case of `recordFiles_put_empty`.
  obtain ⟨made, hmade⟩ := exists_put_eq_directory (directory entries) inner name empty
  have hfiles : (directory made).recordFiles name = (directory entries).recordFiles name := by
    rw [← hmade]
    exact recordFiles_put_empty haround' hmissing' name
  refine ⟨made, ?_, recordFiles_directory_injective hfiles⟩
  rw [List.append_assoc, find?_put_above hpath, hmade]

/-- Directories that are made bring no files into a directory. -/
theorem Makes.recordFilesAmong_eq (h : Makes t t')
    (hpath : t.find? path = some (.directory entries)) :
    ∃ entries', t'.find? path = some (.directory entries') ∧
      recordFilesAmong entries' = recordFilesAmong entries := by
  induction h generalizing entries with
  | none => exact ⟨entries, hpath, rfl⟩
  | @more t t' above name around missing others ih =>
      -- Nothing was at the new path, so it lies below `path` or apart from it, and not above.
      by_cases hbelow : path <+: above ++ [name]
      · obtain ⟨inner, rfl⟩ : path <+: above := by
          refine (List.prefix_concat_iff.mp (by simpa using hbelow)).resolve_left ?_
          rintro rfl
          rw [hpath] at missing
          cases missing
        obtain ⟨entries₁, hput, hfiles₁⟩ := exists_put_empty_below hpath around missing
        obtain ⟨entries₂, hpath₂, hfiles₂⟩ := ih hput
        exact ⟨entries₂, hpath₂, hfiles₂.trans hfiles₁⟩
      · have hnot : ¬ above ++ [name] <+: path := by
          intro habove
          obtain ⟨rest, rfl⟩ := habove
          rw [find?_append, missing] at hpath
          cases hpath
        exact ih (by rwa [find?_put_of_unrelated hbelow hnot])

/-- A directory that is made where nothing was has no files, whatever else is made in it. -/
theorem Makes.recordFilesAmong_eq_nil (h : Makes t t') (hmissing : t.find? path = .none)
    (hpath : t'.find? path = some (.directory entries)) : recordFilesAmong entries = [] := by
  induction h with
  | none =>
      rw [hmissing] at hpath
      cases hpath
  | @more t t' above name around missing others ih =>
      by_cases hbelow : path <+: above ++ [name]
      · obtain rfl : path = above ++ [name] := by
          refine (List.prefix_concat_iff.mp (by simpa using hbelow)).elim id fun habove => ?_
          have hsome := (around.above habove).isSome
          rw [hmissing] at hsome
          cases hsome
        obtain ⟨entries', hpath', hfiles⟩ := others.recordFilesAmong_eq (find?_put t _ empty)
        rw [hpath] at hpath'
        cases hpath'
        exact hfiles
      · refine ih ?_ hpath
        by_cases habove : above ++ [name] <+: path
        · obtain ⟨rest, rfl⟩ := habove
          cases rest with
          | nil => exact absurd (by simp) hbelow
          | cons first rest => rw [find?_append, find?_put]; rfl
        · rwa [find?_put_of_unrelated hbelow habove]

end Tree

end Campus
