import Campus.Disk.Access
import Campus.Proofs.Disk.Tree

/-!
# Where steps lead, and what making directories makes

Steps lead from directory to directory. The path that they lead to is known without the disk
(`pathOf`, `Tree.path_of_spot`), and they lead to it on every disk that has the same directories on
the way (`Tree.spot_of_directories_on_way`). Making a directory with those around it makes some
directories where nothing was (`Tree.Makes`, `Tree.makeDirs_makes`); where it fails, it has made
some exactly if the place could not be reached because something was missing
(`Tree.makeDirs_error_iff`).
-/

namespace Campus

/-- Where a step leads from a path. The names of both stand in reverse order. -/
def Step.lead (trail : Path) : Step → Path
  | .stay => trail
  | .up => outer trail
  | .down name => name :: trail

/-- The path that steps lead to, wherever they lead somewhere. -/
def pathOf (steps : List Step) : Path := (steps.foldl Step.lead []).reverse

theorem pathOf_append_down (steps : List Step) (name : String) :
    pathOf (steps ++ [.down name]) = pathOf steps ++ [name] := by
  simp [pathOf, Step.lead]

namespace Tree

variable {t t' : Tree} {path : Path} {steps : List Step} {s : Spot}

/-! ### Following -/

theorem follow_append (trail : Path) (node? : Option Tree) (steps rest : List Step) :
    t.follow trail node? (steps ++ rest) =
      t.follow trail node? steps >>= fun s => t.follow s.path.reverse s.node? rest := by
  induction steps generalizing trail node? with
  | nil =>
      show _ = t.follow trail.reverse.reverse node? rest
      rw [List.nil_append, List.reverse_reverse]
  | cons step steps ih =>
      rcases node? with _ | _ | entries
      · rfl
      · rfl
      · cases step with
        | stay => simp only [List.cons_append, follow, ih]
        | up => simp only [List.cons_append, follow, ih]
        | down name =>
            simp only [List.cons_append, follow, ih]
            split <;> rfl

theorem spot_append (steps rest : List Step) :
    t.spot (steps ++ rest) = t.spot steps >>= fun s => t.follow s.path.reverse s.node? rest :=
  follow_append _ _ _ _

theorem find?_spot (h : t.spot steps = .ok s) : t.find? s.path = s.node? := find?_follow h rfl

/-- Where steps lead to does not depend on the disk. -/
theorem path_of_spot (h : t.spot steps = .ok s) : s.path = pathOf steps := by
  have hfollow : ∀ (steps : List Step) (trail : Path) (node? : Option Tree),
      t.follow trail node? steps = .ok s → s.path = (steps.foldl Step.lead trail).reverse := by
    intro steps
    induction steps with
    | nil =>
        intro trail node? h
        cases h
        rfl
    | cons step steps ih =>
        intro trail node? h
        rcases node? with _ | _ | entries
        · simp [follow] at h
        · simp [follow] at h
        · cases step with
          | stay =>
              simp only [follow] at h
              exact ih trail _ h
          | up =>
              simp only [follow] at h
              exact ih (outer trail) _ h
          | down name =>
              simp only [follow] at h
              split at h
              · cases h
              · exact ih (name :: trail) _ h
  exact hfollow steps [] (some t) h

/-- An entry of a directory is reached if its name is short enough. -/
theorem spot_child_eq_ok_iff {name : String} :
    t.spot (steps ++ [.down name]) = .ok s ↔
      ∃ path entries, t.spot steps = .ok ⟨path, some (.directory entries)⟩ ∧
        ¬ nameLimit < name.utf8ByteSize ∧ s = ⟨path ++ [name], entries.lookup name⟩ := by
  rw [spot_append]
  constructor
  · intro h
    cases hspot : t.spot steps with
    | error e =>
        rw [hspot] at h
        cases h
    | ok reached =>
        rw [hspot] at h
        obtain ⟨path, node?⟩ := reached
        change t.follow path.reverse node? [.down name] = .ok s at h
        rcases node? with _ | _ | entries
        · cases h
        · cases h
        · simp only [follow] at h
          split at h
          · cases h
          · next hshort =>
            cases h
            exact ⟨path, entries, rfl, hshort, by simp⟩
  · intro h
    obtain ⟨path, entries, hreached, hshort, rfl⟩ := h
    rw [hreached]
    show t.follow path.reverse (some (.directory entries)) [.down name] = _
    simp [follow, hshort]

/-- Whoever follows steps to the end comes by directories only. -/
theorem hasDirectory_of_spot {before rest : List Step} {step : Step}
    (h : t.spot (before ++ step :: rest) = .ok s) : t.HasDirectory (pathOf before) := by
  rw [spot_append] at h
  cases hbefore : t.spot before with
  | error e =>
      rw [hbefore] at h
      cases h
  | ok reached =>
      rw [hbefore] at h
      obtain ⟨path, node?⟩ := reached
      change t.follow path.reverse node? (step :: rest) = .ok s at h
      have hnode := find?_spot hbefore
      rw [← path_of_spot hbefore]
      rcases node? with _ | _ | entries
      · cases h
      · cases h
      · exact ⟨entries, hnode⟩

/-- Steps lead to the same path wherever the directories on the way are still directories. -/
theorem spot_of_directories_on_way
    (hdirectories : ∀ before, before <+: steps →
      t.HasDirectory (pathOf before) → t'.HasDirectory (pathOf before))
    (h : t.spot steps = .ok s) : t'.spot steps = .ok ⟨s.path, t'.find? s.path⟩ := by
  have hfollow : ∀ (steps : List Step) (trail : Path) (node? : Option Tree),
      (∀ before, before <+: steps → t.HasDirectory (before.foldl Step.lead trail).reverse →
        t'.HasDirectory (before.foldl Step.lead trail).reverse) →
      t.find? trail.reverse = node? → t.follow trail node? steps = .ok s →
        t'.follow trail (t'.find? trail.reverse) steps = .ok ⟨s.path, t'.find? s.path⟩ := by
    intro steps
    induction steps with
    | nil =>
        intro trail node? _ _ h
        cases h
        rfl
    | cons step steps ih =>
        intro trail node? hway hnode h
        rcases node? with _ | _ | entries
        · simp [follow] at h
        · simp [follow] at h
        · obtain ⟨entries', hentries'⟩ := hway [] List.nil_prefix ⟨entries, hnode⟩
          have hrest : ∀ before, before <+: steps →
              t.HasDirectory (before.foldl Step.lead (step.lead trail)).reverse →
                t'.HasDirectory (before.foldl Step.lead (step.lead trail)).reverse :=
            fun before hbefore =>
              hway (step :: before) (List.cons_prefix_cons.mpr ⟨rfl, hbefore⟩)
          change t'.find? trail.reverse = _ at hentries'
          rw [hentries']
          cases step with
            | stay =>
                simp only [follow] at h ⊢
                rw [← hentries']
                exact ih _ _ hrest hnode h
            | up =>
                simp only [follow] at h ⊢
                exact ih _ _ hrest rfl h
            | down name =>
                simp only [follow] at h ⊢
                split at h
                · cases h
                · next hshort =>
                  rw [if_neg hshort]
                  have hchild : t'.find? (name :: trail).reverse = entries'.lookup name := by
                    simp [find?_append, hentries', find?_cons]
                  rw [← hchild]
                  exact ih _ _ hrest (by simp [find?_append, hnode, find?_cons]) h
  exact hfollow steps [] (some t) hdirectories rfl h

/-- Steps lead to the same path wherever all directories are still directories. -/
theorem spot_of_directories (hdirectories : ∀ q, t.HasDirectory q → t'.HasDirectory q)
    (h : t.spot steps = .ok s) : t'.spot steps = .ok ⟨s.path, t'.find? s.path⟩ :=
  spot_of_directories_on_way (fun before _ => hdirectories (pathOf before)) h

/-- Around a directory there is something, unless it is reached for the first time. -/
theorem exists_around_outer {trail : Path} {entries : List (String × Tree)}
    (hnode : t.find? trail.reverse = some (.directory entries))
    (hmissing : t.find? (outer trail).reverse = none) :
    ∃ above name, (outer trail).reverse = above ++ [name] ∧ t.HasDirectory above := by
  cases trail with
  | nil => exact ⟨[], aroundName, rfl, entries, hnode⟩
  | cons name above =>
      simp only [outer] at hmissing ⊢
      by_cases haround : name = aroundName
      · rw [if_pos haround]
        exact ⟨(name :: above).reverse, aroundName, by simp, entries, hnode⟩
      · rw [if_neg haround] at hmissing
        by_cases hroot : name = rootName
        · rw [if_pos hroot, hnode] at hmissing
          cases hmissing
        · have hsome : (t.find? (above.reverse ++ [name])).isSome = true := by
            rw [← List.reverse_cons, hnode]
            rfl
          have habove : t.HasDirectory above.reverse := hasDirectory_of_isSome_append hsome
          rw [if_neg hroot] at hmissing
          simpa [hmissing] using habove.isSome

/-- Where nothing is, a directory is around. -/
theorem exists_around_of_missing (h : t.spot steps = .ok ⟨path, none⟩) :
    ∃ above name, path = above ++ [name] ∧ t.HasDirectory above := by
  have hfollow : ∀ (steps : List Step) (trail : Path) (node? : Option Tree),
      t.find? trail.reverse = node? →
      (node? = none → ∃ above name, trail.reverse = above ++ [name] ∧ t.HasDirectory above) →
      t.follow trail node? steps = .ok ⟨path, none⟩ →
        ∃ above name, path = above ++ [name] ∧ t.HasDirectory above := by
    intro steps
    induction steps with
    | nil =>
        intro trail node? _ haround h
        cases h
        exact haround rfl
    | cons step steps ih =>
        intro trail node? hnode haround h
        rcases node? with _ | _ | entries
        · simp [follow] at h
        · simp [follow] at h
        · cases step with
          | stay => exact ih _ _ hnode haround (by simpa [follow] using h)
          | up => exact ih _ _ rfl (exists_around_outer hnode) (by simpa [follow] using h)
          | down name =>
              simp only [follow] at h
              split at h
              · cases h
              · refine ih _ _ (by simp [find?_append, hnode, find?_cons]) ?_ h
                exact fun _ => ⟨trail.reverse, name, by simp, entries, hnode⟩
  exact hfollow steps [] (some t) rfl (by simp) h

/-! ### Making directories -/

/-- `t'` is `t` with some more directories, each made where nothing was. -/
inductive Makes : Tree → Tree → Prop
  | none (t : Tree) : Makes t t
  | more {t t' : Tree} {above : Path} {name : String} (around : t.HasDirectory above)
      (missing : t.find? (above ++ [name]) = .none)
      (others : Makes (t.put (above ++ [name]) empty) t') : Makes t t'

namespace Makes

theorem trans {t₁ t₂ t₃ : Tree} (h : Makes t₁ t₂) (h' : Makes t₂ t₃) : Makes t₁ t₃ := by
  induction h with
  | none => exact h'
  | more around missing _ ih => exact .more around missing (ih h')

theorem isSome {q : Path} (h : Makes t t') (hq : (t.find? q).isSome = true) :
    (t'.find? q).isSome = true := by
  induction h with
  | none => exact hq
  | more _ missing _ ih => exact ih (isSome_find?_put hq missing _)

theorem hasDirectory {q : Path} (h : Makes t t') (hq : t.HasDirectory q) : t'.HasDirectory q := by
  induction h with
  | none => exact hq
  | more _ missing _ ih =>
      refine ih (hq.put (fun hfull => ?_) _)
      simpa [missing] using hfull.isSome

/-- What is a directory afterwards was one before, if there was something. -/
theorem hasDirectory_of_isSome {q : Path} (h : Makes t t') (hq : t'.HasDirectory q)
    (hsome : (t.find? q).isSome = true) : t.HasDirectory q := by
  induction h with
  | none => exact hq
  | more around missing _ ih =>
      have hput := ih hq (isSome_find?_put hsome missing _)
      obtain ⟨node, hnode⟩ := Option.isSome_iff_exists.mp hsome
      cases node with
      | directory entries => exact ⟨entries, hnode⟩
      | file content =>
          obtain ⟨entries, hentries⟩ := hput
          rw [find?_put_of_file hnode around missing] at hentries
          cases hentries

/-- If all that is made lies at or below one path, it is gone when that path is erased. -/
theorem erase_eq {above : Path} {name : String} (h : Makes t t') (haround : t.HasDirectory above)
    (hbelow : ∀ q, (t'.find? q).isSome = true →
      (t.find? q).isSome = true ∨ above ++ [name] <+: q) :
    t'.erase (above ++ [name]) = t.erase (above ++ [name]) := by
  induction h with
  | none => rfl
  | @more t t' above' name' around missing others ih =>
      have hmade : (t'.find? (above' ++ [name'])).isSome = true :=
        others.isSome (by simp [find?_put])
      -- What is made first is still there in the end, so it lies at or below the path.
      obtain ⟨rest, hrest⟩ : above ++ [name] <+: above' ++ [name'] :=
        (hbelow _ hmade).resolve_left (by simp [missing])
      have hput : t.put (above' ++ [name']) empty = t.put (above ++ name :: rest) empty := by
        rw [← hrest, List.append_assoc, List.singleton_append]
      have haround' : (t.put (above' ++ [name']) empty).HasDirectory above :=
        haround.put (fun hfull => by simpa [missing] using hfull.isSome) _
      rw [ih haround' fun q hq => (hbelow q hq).imp_left fun hq' => isSome_find?_put hq' missing _,
        hput, erase_put haround]

end Makes

theorem makeDir_makes (h : t.makeDir steps = .ok t') : Makes t t' := by
  unfold makeDir at h
  split at h
  · cases h
  · next hspot =>
    cases h
    obtain ⟨above, name, rfl, haround⟩ := exists_around_of_missing hspot
    exact .more haround (find?_spot hspot) (.none _)
  · cases h
  · cases h
    exact .none _

/-- The directory that is made is there afterwards. -/
theorem spot_of_makeDir (h : t.makeDir steps = .ok t') :
    ∃ path entries, t'.spot steps = .ok ⟨path, some (.directory entries)⟩ := by
  have hmakes := makeDir_makes h
  unfold makeDir at h
  split at h
  · cases h
  · next path hspot =>
    cases h
    refine ⟨path, [], ?_⟩
    rw [spot_of_directories (fun _ => hmakes.hasDirectory) hspot, find?_put]
    rfl
  · cases h
  · next path entries hspot =>
    cases h
    exact ⟨path, entries, hspot⟩

theorem makeDir_eq_notFound_iff :
    t.makeDir steps = .error .notFound ↔ t.spot steps = .error .notFound := by
  unfold makeDir
  split <;> simp [*]

/-- Where something is missing on the way, the way is made before the directory. -/
theorem makeWay_makes_of_notFound {step : Step} {above : List Step}
    (h : t.makeDir (step :: above).reverse = .error .notFound) :
    Makes (t.makeWay above).2 (t.makeWay (step :: above)).2 := by
  rw [makeWay, h]
  dsimp only
  rcases hway : t.makeWay above with ⟨_ | _, left⟩
  · exact .none _
  · dsimp only
    split
    · next hmade => exact makeDir_makes hmade
    · exact .none _

theorem makeWay_makes (t : Tree) (steps : List Step) : Makes t (t.makeWay steps).2 := by
  induction steps with
  | nil => exact .none _
  | cons step above ih =>
      cases h : t.makeDir (step :: above).reverse with
      | ok made =>
          rw [makeWay, h]
          exact makeDir_makes h
      | error e =>
          by_cases he : e = .notFound
          · subst he
            exact ih.trans (makeWay_makes_of_notFound h)
          · rw [makeWay, h]
            cases e <;> first | exact absurd rfl he | exact .none _

/-- The directory to which the way is made is there afterwards. -/
theorem spot_of_makeWay {step : Step} {above : List Step}
    (h : (t.makeWay (step :: above)).1 = .ok ()) :
    ∃ path entries, (t.makeWay (step :: above)).2.spot (step :: above).reverse =
      .ok ⟨path, some (.directory entries)⟩ := by
  cases hmade : t.makeDir (step :: above).reverse with
  | ok made =>
      rw [makeWay, hmade]
      exact spot_of_makeDir hmade
  | error e =>
      by_cases he : e = .notFound
      · subst he
        rw [makeWay, hmade] at h ⊢
        dsimp only at h ⊢
        rcases hway : t.makeWay above with ⟨_ | _, left⟩
        · simp [hway] at h
        · simp only [hway] at h ⊢
          cases hagain : left.makeDir (step :: above).reverse with
          | ok made => exact spot_of_makeDir hagain
          | error e =>
              rw [hagain] at h
              cases h
      · rw [makeWay, hmade] at h
        cases e <;> first | exact absurd rfl he | cases h

/-- Where something is missing on the way, something is made, whether or not the directory is. -/
theorem exists_made_of_notFound {step : Step} {above : List Step}
    (h : t.makeDir (step :: above).reverse = .error .notFound) :
    ∃ q, t.find? q = none ∧ ((t.makeWay (step :: above)).2.find? q).isSome = true := by
  induction above generalizing step with
  | nil =>
      rw [makeDir_eq_notFound_iff] at h
      cases t with
      | file content => cases h
      | directory entries =>
          cases step with
          | stay => cases h
          | up => cases h
          | down name =>
              simp only [List.reverse_singleton, spot, follow] at h
              split at h <;> cases h
  | cons outerStep above ih =>
      have hmakes := makeWay_makes_of_notFound h
      rw [makeDir_eq_notFound_iff, List.reverse_cons, spot_append] at h
      cases hreached : t.spot (outerStep :: above).reverse with
      | error e =>
          rw [hreached] at h
          cases h
          -- What is missing further out is made before.
          obtain ⟨q, hq, hmade⟩ := ih (makeDir_eq_notFound_iff.mpr hreached)
          exact ⟨q, hq, hmakes.isSome hmade⟩
      | ok reached =>
          obtain ⟨path, node?⟩ := reached
          rw [hreached] at h
          change t.follow path.reverse node? [step] = .error .notFound at h
          rcases node? with _ | _ | entries
          · -- The directory around is the first that is missing.
            have hmade : t.makeDir (outerStep :: above).reverse = .ok (t.put path empty) := by
              rw [makeDir, hreached]
            have hway : (t.makeWay (outerStep :: above)).2 = t.put path empty := by
              rw [makeWay, hmade]
            refine ⟨path, find?_spot hreached, hmakes.isSome ?_⟩
            simp [hway, find?_put]
          · cases h
          · cases step with
            | stay => cases h
            | up => cases h
            | down name =>
                simp only [follow] at h
                split at h <;> cases h

theorem makeDirs_makes (t : Tree) (p : Place) : Makes t (t.makeDirs p).2 := by
  unfold makeDirs
  split
  · exact .none _
  · exact makeWay_makes t _

/-- The place that is made is a directory afterwards. -/
theorem locate_of_makeDirs {p : Place} (hsteps : p.steps ≠ []) (h : t.makeDirs p = (.ok (), t')) :
    ∃ path entries, t'.locate p = .ok ⟨path, some (.directory entries)⟩ := by
  unfold makeDirs at h
  split at h
  · cases h
  · next herror =>
    unfold locate
    rw [herror]
    cases hreverse : p.steps.reverse with
    | nil => exact absurd (List.reverse_eq_nil_iff.mp hreverse) hsteps
    | cons step above =>
        have hp : p.steps = (step :: above).reverse := by rw [← hreverse, List.reverse_reverse]
        rw [hreverse] at h
        have hway : (t.makeWay (step :: above)).1 = .ok () := by rw [h]
        obtain ⟨path, entries, hspot⟩ := spot_of_makeWay hway
        rw [h] at hspot
        exact ⟨path, entries, hp ▸ hspot⟩

theorem locate_eq_spot {p : Place} (h : p.error? = none) : t.locate p = t.spot p.steps := by
  simp [locate, h]

/-- Making directories fails without a trace unless something is missing on the way. -/
theorem makeDirs_error_iff {p : Place} {e : DiskError} (htext : p.text.isEmpty = false)
    (h : (t.makeDirs p).1 = .error e) : (t.makeDirs p).2 = t ↔ t.locate p ≠ .error .notFound := by
  unfold makeDirs at h ⊢
  cases herror : p.error? with
  | some e' =>
      have he' : e' ≠ .notFound := by
        rintro rfl
        unfold Place.error? at herror
        split at herror
        · cases herror
        · split at herror <;> simp [htext] at herror
      simp [locate, herror, he']
  | none =>
      simp only [herror] at h ⊢
      rw [locate_eq_spot herror]
      cases hsteps : p.steps.reverse with
      | nil =>
          rw [hsteps] at h
          cases h
      | cons step above =>
          have hreverse : p.steps = (step :: above).reverse := by
            rw [← hsteps, List.reverse_reverse]
          rw [hreverse, ne_eq, ← makeDir_eq_notFound_iff]
          constructor
          · intro hsame hmissing
            obtain ⟨q, hq, hmade⟩ := exists_made_of_notFound hmissing
            rw [hsame, hq] at hmade
            cases hmade
          · intro hpresent
            rw [makeWay]
            cases hmade : t.makeDir (step :: above).reverse with
            | ok made =>
                rw [hsteps, makeWay, hmade] at h
                cases h
            | error e => cases e <;> first | exact absurd hmade hpresent | rfl

/-- An entry that is reached lies in a directory. -/
theorem exists_around_of_locate_child {p : Place} {name : String}
    (h : t.locate (p.child name) = .ok s) :
    ∃ above, s.path = above ++ [name] ∧ t.HasDirectory above := by
  unfold locate at h
  split at h
  · cases h
  · obtain ⟨above, entries, hspot, -, rfl⟩ := spot_child_eq_ok_iff.mp h
    exact ⟨above, rfl, entries, find?_spot hspot⟩

end Tree

end Campus
