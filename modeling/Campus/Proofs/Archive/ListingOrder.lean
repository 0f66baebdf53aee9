import Campus.Archive
import Campus.Proofs.Registry.ListingOrder

/-!
# Archives do not depend on the order of directories

A directory may list its entries in any order, and in another one each time. Two disks that differ
in nothing else give the same archive, with the same datasets and numbers of rows, and the same
results for every scan and every query (`Archive.same_of_reordered`).
-/

namespace Campus.Archive

variable {disk disk' : Tree}

/-- Two disks have the same files and directories, but list the entries of each directory in any two
orders. Opening a data directory on them gives the same registry, with the same rows for every
dataset, or fails alike. Whatever the orders are afterwards, every scan of a dataset comes to the
same on both disks: it visits the same records in the same order, and counts and logs the same. So
every query has the same result. -/
theorem same_of_reordered (h : disk.Reordered disk') (place : Place) :
    let opening := Registry.openAt place disk
    let opening' := Registry.openAt place disk'
    opening'.result = opening.result ∧ opening'.log = opening.log ∧
      opening.disk.Reordered opening'.disk ∧
      ∀ now now', opening.disk.Reordered now → opening'.disk.Reordered now' → ∀ a : Archive,
        (∀ id {α : Type} (visit : Visitor α) (state : α),
          ((a.source now').batches id).map (Scan.run visit state) =
            ((a.source now).batches id).map (Scan.run visit state)) ∧
        ∀ stamp query, a.ask now' stamp query = a.ask now stamp query := by
  intro opening opening'
  obtain ⟨hresult, hlog, hdisk⟩ := h.openKinds ⟨place, []⟩ Kind.all
  refine ⟨hresult, hlog, hdisk, fun now now' hnow hnow' a => ?_⟩
  have hreordered : now.Reordered now' := hnow.symm.trans (hdisk.trans hnow')
  have hbatches : (a.source now').batches = (a.source now).batches :=
    funext fun id => hreordered.batches_eq a.registry id
  refine ⟨fun id _ visit state => by rw [hbatches], fun stamp query => ?_⟩
  have hsource : a.source now' = a.source now :=
    congrArg (Source.mk a.registry.datasets) hbatches
  rw [ask, ask, hsource]

/-- A data directory with a dataset of courses, whose three files lie at two depths, and one of
rooms. Each directory lists its entries in the given order. -/
def listedSections (order : List (String × Tree) → List (String × Tree)) : Tree :=
  let sections := Tree.file Registry.sampleSection.toText.toUTF8
  let term := Tree.directory (order [("b.json", sections), ("c.json", sections)])
  let dataset := Tree.directory (order [("a.json", sections), ("term", term)])
  let courses := Tree.directory (order [("c", dataset), ("note.txt", sections)])
  let rooms := Tree.directory (order [("r", .empty), ("note.txt", sections)])
  .directory (order [("courses", courses), ("rooms", rooms)])

theorem reordered_listedSections : (listedSections id).Reordered (listedSections List.reverse) := by
  have hpair (first second : String) {t t' u u' : Tree} (hne : first ≠ second)
      (ht : t.Reordered t') (hu : u.Reordered u') :
      (Tree.directory [(first, t), (second, u)]).Reordered
        (Tree.directory [(second, u'), (first, t')]) := by
    have hnodes : List.Forall₂ (fun entry entry' => entry.1 = entry'.1 ∧ entry.2.Reordered entry'.2)
        [(first, t), (second, u)] [(first, t'), (second, u')] :=
      .cons ⟨rfl, ht⟩ (.cons ⟨rfl, hu⟩ .nil)
    exact Tree.reordered_directory_of_perm (by simp [hne]) hnodes (.swap _ _ _)
  have hfile : (Tree.file Registry.sampleSection.toText.toUTF8).Reordered _ :=
    .refl (Tree.distinctEntries_file _)
  have hterm := hpair "b.json" "c.json" (by decide) hfile hfile
  have hdataset := hpair "a.json" "term" (by decide) hfile hterm
  have hcourses := hpair "c" "note.txt" (by decide) hdataset hfile
  have hrooms := hpair "r" "note.txt" (by decide) (.refl Tree.distinctEntries_empty) hfile
  exact hpair "courses" "rooms" (by decide) hcourses hrooms

/-- On two disks on which the files of a dataset are listed in different orders, the same archive is
opened, and its queries have the same results. -/
theorem same_of_reordered_listedSections :
    let opening := Registry.openAt (.ofText ".") (listedSections id)
    let opening' := Registry.openAt (.ofText ".") (listedSections List.reverse)
    (listedSections id).Reordered (listedSections List.reverse) ∧
      (Tree.recordFilesAmong (listedSections id).entries).map Prod.fst ≠
        (Tree.recordFilesAmong (listedSections List.reverse).entries).map Prod.fst ∧
      ∃ a, opening.archive = .ok a ∧ opening'.archive = .ok a ∧
        a.registry.datasets = [("c", .courses), ("r", .rooms)] ∧
        ∀ stamp query, a.ask opening'.disk stamp query = a.ask opening.disk stamp query := by
  intro opening opening'
  obtain ⟨hresult, -, hdisk, hsame⟩ := same_of_reordered reordered_listedSections (.ofText ".")
  have hdatasets : opening.result.toOption.map Registry.datasets =
      some [("c", .courses), ("r", .rooms)] := by
    decide +kernel
  refine ⟨reordered_listedSections, by decide, ?_⟩
  cases hopened : opening.result with
  | error e =>
      rw [hopened] at hdatasets
      cases hdatasets
  | ok r =>
      rw [hopened] at hdatasets
      obtain ⟨-, hask⟩ := hsame opening.disk opening'.disk (.refl hdisk.distinct)
        (.refl hdisk.distinct') (ofRegistry r)
      refine ⟨ofRegistry r, ?_, ?_, Option.some.inj hdatasets, hask⟩
      · rw [Opening.archive, hopened]
      · rw [Opening.archive, hresult, hopened]

end Campus.Archive
