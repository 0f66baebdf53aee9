import Campus.Proofs.Registry.Change
import Campus.Registry.Opening

/-!
# What opening a data directory gives

Whatever lies in the directories, the registry that is opened is well-formed
(`Registry.wellFormed_of_openAt`): directories are registered one after the other, and a name that
is no id or is taken is left out.
-/

namespace Campus.Registry

theorem WellFormed.register {r : Registry} (h : r.WellFormed) (kind : Kind)
    (entry : String × Tree) : (r.register kind entry).1.WellFormed := by
  obtain ⟨id, t⟩ := entry
  unfold Registry.register
  dsimp only
  split
  · exact h
  · next hvalid =>
    split
    · exact h
    · next hfree =>
      exact h.append (by simpa using hvalid) fun hmem => hfree (find?_isSome_iff.mpr hmem)

theorem WellFormed.registerAll {r : Registry} (h : r.WellFormed) (kind : Kind)
    (entries : List (String × Tree)) : (r.registerAll kind entries).1.WellFormed := by
  induction entries generalizing r with
  | nil => exact h
  | cons entry entries ih => exact ih (h.register kind entry)

/-- Opening that succeeds lists the directories of a kind, registers them, and goes on with the
other kinds. -/
theorem exists_openKinds_cons {r opened : Registry} {disk : Tree} {kind : Kind} {kinds : List Kind}
    (h : (r.openKinds disk (kind :: kinds)).result = .ok opened) :
    ∃ made entries, disk.makeDirs (r.kindPlace kind) = (.ok (), made) ∧
      made.list (r.kindPlace kind) = .ok entries ∧
      ((r.registerAll kind (sortedDirectories entries)).1.openKinds made kinds).result =
        .ok opened ∧
      (r.openKinds disk (kind :: kinds)).disk =
        ((r.registerAll kind (sortedDirectories entries)).1.openKinds made kinds).disk := by
  generalize hopening : r.openKinds disk (kind :: kinds) = opening at h ⊢
  unfold Registry.openKinds at hopening
  dsimp only at hopening
  split at hopening
  · subst hopening
    cases h
  · next made hmade =>
    split at hopening
    · subst hopening
      cases h
    · next entries hlist =>
      subst hopening
      exact ⟨made, entries, hmade, hlist, h, rfl⟩

theorem WellFormed.openKinds {r opened : Registry} (h : r.WellFormed) {disk : Tree}
    {kinds : List Kind} (hopened : (r.openKinds disk kinds).result = .ok opened) :
    opened.WellFormed := by
  induction kinds generalizing r disk with
  | nil =>
      cases hopened
      exact h
  | cons kind kinds ih =>
      obtain ⟨made, entries, -, -, hrest, -⟩ := exists_openKinds_cons hopened
      exact ih (h.registerAll kind _) hrest

/-- The registry of a data directory that is opened is well-formed. -/
theorem wellFormed_of_openAt {place : Place} {disk : Tree} {r : Registry}
    (h : (openAt place disk).result = .ok r) : r.WellFormed :=
  WellFormed.openKinds ⟨by simp [ids], by simp [ids]⟩ h

end Campus.Registry
