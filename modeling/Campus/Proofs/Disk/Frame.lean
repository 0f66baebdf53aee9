import Campus.Proofs.Disk.Writing
import Mathlib.Data.List.Infix

/-!
# Changes at one path

Two disks on which all is the same but what lies at a path and below it (`Tree.ChangesOnly`) have
the same files and directories everywhere else, and a place that does not lead through that path
(`Place.LeadsThrough`) is found on both at the same path. Putting something into a directory and
erasing it are changes of this kind.
-/

namespace Campus

namespace Tree

variable {t t' t'' : Tree} {path q : Path} {name : String}

/-! ### Disks that differ at one path -/

/-- Nothing has changed but what is at the path and below it. -/
def ChangesOnly (t : Tree) (path : Path) (t' : Tree) : Prop := t'.erase path = t.erase path

namespace ChangesOnly

theorem refl (t : Tree) (path : Path) : t.ChangesOnly path t := rfl

theorem put {above : Path} (h : t.HasDirectory above) (name : String) (new : Tree) :
    t.ChangesOnly (above ++ [name]) (t.put (above ++ [name]) new) :=
  erase_put h [] new

theorem erase (t : Tree) (path : Path) : t.ChangesOnly path (t.erase path) := erase_erase t path

/-- What lies neither above nor below the path is the same. -/
theorem find?_eq (h : t.ChangesOnly path t') (hq : ¬ q <+: path) (hq' : ¬ path <+: q) :
    t'.find? q = t.find? q := by
  rw [← find?_erase_of_unrelated hq hq', h, find?_erase_of_unrelated hq hq']

theorem hasDirectory_iff (h : t.ChangesOnly path t') (hq : ¬ path <+: q) :
    t'.HasDirectory q ↔ t.HasDirectory q := by
  rw [← hasDirectory_erase_iff hq, h, hasDirectory_erase_iff hq]

/-- Steps that do not come by the path lead to where they led. -/
theorem spot_eq {steps : List Step} {s : Spot} (h : t.ChangesOnly path t')
    (hway : ∀ before, before <+: steps → ¬ path <+: pathOf before) (hs : t.spot steps = .ok s) :
    t'.spot steps = .ok ⟨s.path, t'.find? s.path⟩ :=
  spot_of_directories_on_way
    (fun before hbefore => (h.hasDirectory_iff (hway before hbefore)).mpr) hs

end ChangesOnly

end Tree

/-! ### Places -/

namespace Place

/-- The path of the place, wherever it is found. -/
def path (p : Place) : Path := pathOf p.steps

/-- The steps of the place come by what is at the path or below it. -/
def LeadsThrough (p : Place) (path : Path) : Prop :=
  ∃ before, before <+: p.steps ∧ path <+: pathOf before

instance (p : Place) (path : Path) : Decidable (p.LeadsThrough path) :=
  decidable_of_iff (∃ before ∈ p.steps.inits, path <+: pathOf before)
    (exists_congr fun before => and_congr_left fun _ => List.mem_inits before p.steps)

variable {p : Place} {path : Path}

@[simp] theorem path_child (p : Place) (name : String) : (p.child name).path = p.path ++ [name] :=
  pathOf_append_down p.steps name

theorem leadsThrough_child_iff {name : String} :
    (p.child name).LeadsThrough path ↔ p.LeadsThrough path ∨ path <+: p.path ++ [name] := by
  constructor
  · intro h
    obtain ⟨before, hbefore, hpath⟩ := h
    rcases List.prefix_concat_iff.mp hbefore with rfl | hbefore
    · rw [pathOf_append_down] at hpath
      exact .inr hpath
    · exact .inl ⟨before, hbefore, hpath⟩
  · intro h
    rcases h with ⟨before, hbefore, hpath⟩ | hpath
    · exact ⟨before, hbefore.trans (List.prefix_append _ _), hpath⟩
    · exact ⟨_, List.prefix_refl _, by rwa [← path_child] at hpath⟩

end Place

namespace Tree

variable {t t' : Tree} {place : Place} {path : Path} {name : String}
  {entries : List (String × Tree)}

theorem HasEntries.path_eq (h : t.HasEntries place path entries) : path = place.path :=
  path_of_spot h.spot_eq

/-- A directory that is not reached through what changes is still found. -/
theorem ChangesOnly.exists_hasEntries {target : Path} (h : t.ChangesOnly target t')
    (hentries : t.HasEntries place path entries) (hway : ¬ place.LeadsThrough target) :
    ∃ entries', t'.HasEntries place path entries' := by
  have hway' : ∀ before, before <+: place.steps → ¬ target <+: pathOf before :=
    fun before hbefore htarget => hway ⟨before, hbefore, htarget⟩
  have hbelow : ¬ target <+: path := by
    rw [hentries.path_eq]
    exact hway' _ (List.prefix_refl _)
  obtain ⟨entries', hfind⟩ := (h.hasDirectory_iff hbelow).mpr ⟨entries, hentries.find?_eq⟩
  refine ⟨entries', ?_⟩
  unfold HasEntries
  rw [locate_eq_spot hentries.error?_eq_none, h.spot_eq hway' hentries.spot_eq]
  simp only [hfind]

/-- A directory that has no part in what changes keeps its entries, if the one around it is still
found. -/
theorem ChangesOnly.hasEntries_child {target above : Path} {around : List (String × Tree)}
    (h : t.ChangesOnly target t') (hentries : t.HasEntries (place.child name) path entries)
    (haround : t'.HasEntries place above around) (hbelow : ¬ target <+: path)
    (hpath : ¬ path <+: target) : t'.HasEntries (place.child name) path entries := by
  have hsame : above ++ [name] = path := by
    rw [hentries.path_eq, Place.path_child, haround.path_eq]
  obtain ⟨-, -, -, hshort, -⟩ := spot_child_eq_ok_iff.mp hentries.spot_eq
  have hspot : t'.spot (place.child name).steps = .ok ⟨above ++ [name], around.lookup name⟩ :=
    spot_child_eq_ok_iff.mpr ⟨above, around, haround.spot_eq, hshort, rfl⟩
  have hnode : t'.find? path = around.lookup name := hsame ▸ find?_spot hspot
  unfold HasEntries
  rw [locate_eq_spot hentries.error?_eq_none, hspot, hsame, ← hnode, h.find?_eq hpath hbelow,
    hentries.find?_eq]

end Tree

end Campus
