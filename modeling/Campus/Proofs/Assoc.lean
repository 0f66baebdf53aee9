import Campus.Assoc
import Campus.Proofs.Sorting

/-!
# Looking up named values

Where no name repeats, a list of named values is as good as the function that looks names up in it:
`Assoc.perm_iff_lookup_eq`. Reading an object is then a matter of what its members are, whatever
their order.
-/

namespace Campus.Assoc

variable {α β : Type} {entries entries' : List (String × α)}

@[simp] theorem names_append (entries entries' : List (String × α)) :
    names (entries ++ entries') = names entries ++ names entries' := List.map_append

theorem names_map_snd (f : α → β) (entries : List (String × α)) :
    names (entries.map fun entry => (entry.1, f entry.2)) = names entries := by
  simp [names, Function.comp_def]

theorem mem_names_of_mem {name : String} {value : α} (h : (name, value) ∈ entries) :
    name ∈ names entries :=
  List.mem_map_of_mem (f := (·.1)) h

theorem names_perm (h : entries.Perm entries') : (names entries).Perm (names entries') := h.map _

theorem lookup_isSome {name : String} :
    (entries.lookup name).isSome = true ↔ name ∈ names entries := by
  simp [names]

theorem lookup_eq_none {name : String} : entries.lookup name = none ↔ name ∉ names entries := by
  rw [← lookup_isSome, Option.not_isSome_iff_eq_none]

theorem mem_of_lookup {name : String} {value : α} (h : entries.lookup name = some value) :
    (name, value) ∈ entries := by
  obtain ⟨before, behind, rfl, -⟩ := List.lookup_eq_some_iff.mp h
  simp

/-- A value is found under its name if the name does not repeat. -/
theorem lookup_eq_some {name : String} {value : α} (h : (names entries).Nodup) :
    entries.lookup name = some value ↔ (name, value) ∈ entries := by
  refine ⟨mem_of_lookup, fun hmem => ?_⟩
  obtain ⟨found, hfound⟩ :=
    Option.isSome_iff_exists.mp (lookup_isSome.mpr (mem_names_of_mem hmem))
  obtain rfl : found = value :=
    congrArg Prod.snd (List.inj_on_of_nodup_map h (mem_of_lookup hfound) hmem rfl)
  exact hfound

/-- Looking up all names gives the values back. -/
theorem filterMap_lookup_names (h : (names entries).Nodup) :
    ((names entries).filterMap fun name => (entries.lookup name).map (name, ·)) = entries := by
  induction entries with
  | nil => rfl
  | cons entry entries ih =>
      obtain ⟨name, value⟩ := entry
      rw [names_cons, List.nodup_cons] at h
      have hothers : ((names entries).filterMap fun other =>
            (((name, value) :: entries).lookup other).map (other, ·)) =
          (names entries).filterMap fun other => (entries.lookup other).map (other, ·) := by
        refine List.filterMap_congr fun other hother => ?_
        have hne : other ≠ name := fun heq => h.1 (heq ▸ hother)
        rw [List.lookup_cons, beq_false_of_ne hne]
      rw [names_cons, List.filterMap_cons, List.lookup_cons_self, Option.map_some, hothers, ih h.2]

theorem lookup_eq_of_perm (h : (names entries).Nodup) (hperm : entries.Perm entries')
    (name : String) : entries.lookup name = entries'.lookup name := by
  have h' : (names entries').Nodup := (names_perm hperm).nodup_iff.mp h
  ext value
  rw [lookup_eq_some h, lookup_eq_some h', hperm.mem_iff]

/-- Without repeated names, two lists hold the same entries if every name means the same in
both. -/
theorem perm_iff_lookup_eq (h : (names entries).Nodup) (h' : (names entries').Nodup) :
    entries.Perm entries' ↔ ∀ name, entries.lookup name = entries'.lookup name := by
  refine ⟨lookup_eq_of_perm h, fun heq => ?_⟩
  rw [List.perm_ext_iff_of_nodup (.of_map _ h) (.of_map _ h')]
  intro entry
  obtain ⟨name, value⟩ := entry
  rw [← lookup_eq_some h, ← lookup_eq_some h', heq]

/-- With all names among the known ones, only what the known names mean has to be compared. -/
theorem perm_iff_of_known {known : List String} (h : (names entries).Nodup)
    (h' : (names entries').Nodup) (hknown : ∀ name ∈ names entries', name ∈ known) :
    entries.Perm entries' ↔
      (∀ name ∈ names entries, name ∈ known) ∧
        ∀ name ∈ known, entries.lookup name = entries'.lookup name := by
  constructor
  · intro hperm
    exact ⟨fun name hname => hknown name ((names_perm hperm).mem_iff.mp hname),
      fun name _ => lookup_eq_of_perm h hperm name⟩
  · intro hsame
    obtain ⟨hsub, hlookup⟩ := hsame
    refine (perm_iff_lookup_eq h h').mpr fun name => ?_
    by_cases hname : name ∈ known
    · exact hlookup name hname
    · rw [lookup_eq_none.mpr fun hmem => hname (hsub name hmem),
        lookup_eq_none.mpr fun hmem => hname (hknown name hmem)]

/-- Two names that are there account for both of two entries. -/
theorem perm_pair_iff {first second : String} {x y : α} (hne : first ≠ second) :
    entries.Perm [(first, x), (second, y)] ↔
      entries.length = 2 ∧ entries.lookup first = some x ∧ entries.lookup second = some y := by
  have hnodup : (names [(first, x), (second, y)]).Nodup := by simp [hne]
  constructor
  · intro hperm
    have h : (names entries).Nodup := (names_perm hperm).nodup_iff.mpr hnodup
    refine ⟨hperm.length_eq, ?_, ?_⟩
    · simp [lookup_eq_of_perm h hperm]
    · simp [lookup_eq_of_perm h hperm, List.lookup_cons, beq_false_of_ne hne.symm]
  · intro h
    obtain ⟨hlength, hx, hy⟩ := h
    have hsub : [(first, x), (second, y)] ⊆ entries := by
      simp [mem_of_lookup hx, mem_of_lookup hy]
    exact ((List.subperm_of_subset (.of_map _ hnodup) hsub).perm_of_length_le
      (by simp [hlength])).symm

/-! ### Setting -/

theorem put_of_not_mem {name : String} (h : name ∉ names entries) (value : α) :
    put name value entries = entries ++ [(name, value)] := by
  induction entries with
  | nil => rfl
  | cons entry entries ih =>
      obtain ⟨other, old⟩ := entry
      simp only [names_cons, List.mem_cons, not_or] at h
      simp [put, Ne.symm h.1, ih h.2]

theorem put_lookup {name : String} {value : α} (h : entries.lookup name = some value) :
    put name value entries = entries := by
  induction entries with
  | nil => simp at h
  | cons entry entries ih =>
      obtain ⟨other, old⟩ := entry
      by_cases heq : other = name
      · subst heq
        simp only [List.lookup_cons_self, Option.some.injEq] at h
        simp [put, h]
      · rw [List.lookup_cons, beq_false_of_ne (Ne.symm heq)] at h
        simp [put, heq, ih h]

theorem put_put (name : String) (value value' : α) (entries : List (String × α)) :
    put name value' (put name value entries) = put name value' entries := by
  induction entries with
  | nil => simp [put]
  | cons entry entries ih =>
      obtain ⟨other, old⟩ := entry
      by_cases heq : other = name
      · simp [put, heq]
      · simp [put, heq, ih]

theorem nodup_names_put {name : String} (h : (names entries).Nodup) (value : α) :
    (names (put name value entries)).Nodup := by
  rw [names_put]
  split
  · exact h
  · next hnew =>
    refine List.nodup_append.mpr ⟨h, List.nodup_singleton _, ?_⟩
    intro other hother name' hname' heq
    rw [List.mem_singleton.mp hname'] at heq
    exact hnew (heq ▸ hother)

theorem filter_put (name : String) (value : α) (entries : List (String × α)) :
    (put name value entries).filter (fun entry => entry.1 != name) =
      entries.filter fun entry => entry.1 != name := by
  induction entries with
  | nil => simp [put]
  | cons entry entries ih =>
      obtain ⟨other, old⟩ := entry
      by_cases heq : other = name
      · simp [put, heq]
      · simp [put, heq, ih]

theorem lookup_filter_ne {name other : String} (h : other ≠ name) :
    (entries.filter fun entry => entry.1 != name).lookup other = entries.lookup other := by
  induction entries with
  | nil => rfl
  | cons entry entries ih =>
      obtain ⟨first, value⟩ := entry
      by_cases heq : first = name
      · subst heq
        simp [List.lookup_cons, beq_false_of_ne h, ih]
      · simp [heq, List.lookup_cons, ih]

theorem putAll_cons (entries : List (String × α)) (update : String × α)
    (updates : List (String × α)) :
    putAll entries (update :: updates) = putAll (put update.1 update.2 entries) updates := rfl

/-- Of several values that are set under a name, the last one stays. -/
theorem lookup_putAll (entries updates : List (String × α)) (name : String) :
    (putAll entries updates).lookup name =
      (updates.reverse.lookup name).or (entries.lookup name) := by
  induction updates generalizing entries with
  | nil => simp [putAll]
  | cons update updates ih =>
      obtain ⟨first, value⟩ := update
      rw [putAll_cons, ih, List.reverse_cons, List.lookup_append, Option.or_assoc]
      congr 1
      by_cases heq : name = first
      · simp [heq, lookup_put_self]
      · simp [lookup_put_of_ne heq, List.lookup_cons, beq_false_of_ne heq]

/-- A value that is found from the end is the last one under its name. -/
theorem exists_append_of_lookup_reverse {name : String} {value : α}
    (h : entries.reverse.lookup name = some value) :
    ∃ earlier later, entries = earlier ++ (name, value) :: later ∧ name ∉ names later := by
  obtain ⟨later, earlier, hsplit, hlater⟩ := List.lookup_eq_some_iff.mp h
  refine ⟨earlier.reverse, later.reverse, ?_, ?_⟩
  · rw [← List.reverse_inj, hsplit]
    simp
  · intro hname
    obtain ⟨entry, hentry, rfl⟩ := List.mem_map.mp hname
    simpa using hlater entry (List.mem_reverse.mp hentry)

/-- Values under new names are added one after the other. -/
theorem putAll_eq_append (h : (names (entries ++ entries')).Nodup) :
    putAll entries entries' = entries ++ entries' := by
  induction entries' generalizing entries with
  | nil => simp [putAll]
  | cons entry entries' ih =>
      have hnew : entry.1 ∉ names entries := by
        rw [names_append, names_cons, List.nodup_middle, List.nodup_cons] at h
        exact fun hmem => h.1 (List.mem_append_left _ hmem)
      rw [putAll_cons, put_of_not_mem hnew, ih (by simpa using h)]
      simp

theorem mem_names_putAll {updates entries : List (String × α)} {name : String} :
    name ∈ names (putAll entries updates) ↔ name ∈ names entries ∨ name ∈ names updates := by
  induction updates generalizing entries with
  | nil => simp [putAll]
  | cons update updates ih =>
      have hnames : name ∈ names (put update.1 update.2 entries) ↔
          name ∈ names entries ∨ name = update.1 := by
        rw [names_put]
        split
        · next hmem => exact ⟨.inl, fun h => h.elim id fun heq => heq ▸ hmem⟩
        · simp
      rw [putAll_cons, ih, hnames, names_cons, List.mem_cons, or_assoc]

/-! ### Erasing -/

/-- `entries` without the first entry of a name. -/
def erase (name : String) (entries : List (String × α)) : List (String × α) :=
  entries.eraseP fun entry => entry.1 == name

/-- `entries` without the first entry of each name. -/
def eraseAll : List String → List (String × α) → List (String × α)
  | [], entries => entries
  | name :: names, entries => erase name (eraseAll names entries)

theorem eraseAll_subset (erased : List String) (entries : List (String × α)) :
    eraseAll erased entries ⊆ entries := by
  induction erased with
  | nil => exact List.Subset.refl _
  | cons name erased ih => exact List.Subset.trans List.eraseP_subset ih

theorem put_perm (name : String) (value : α) (entries : List (String × α)) :
    (put name value entries).Perm ((name, value) :: erase name entries) := by
  induction entries with
  | nil => exact .refl _
  | cons entry entries ih =>
      obtain ⟨other, old⟩ := entry
      by_cases heq : other = name
      · simp [put, erase, heq]
      · have herase :
            erase name ((other, old) :: entries) = (other, old) :: erase name entries := by
          simp [erase, heq]
        rw [put, if_neg heq, herase]
        exact (ih.cons _).trans (.swap _ _ _)

theorem erase_put_of_ne {name other : String} (h : other ≠ name) (value : α)
    (entries : List (String × α)) :
    erase name (put other value entries) = put other value (erase name entries) := by
  induction entries with
  | nil => simp [put, erase, h]
  | cons entry entries ih =>
      obtain ⟨first, old⟩ := entry
      unfold erase at ih ⊢
      by_cases hother : first = other
      · subst hother
        simp [put, h]
      · by_cases hname : first = name
        · subst hname
          simp [put, hother]
        · simp [put, hother, hname, ih]

theorem eraseAll_put_of_not_mem {updated : List String} {name : String} (h : name ∉ updated)
    (value : α) (entries : List (String × α)) :
    eraseAll updated (put name value entries) = put name value (eraseAll updated entries) := by
  induction updated with
  | nil => rfl
  | cons other updated ih =>
      rw [List.mem_cons, not_or] at h
      rw [eraseAll, eraseAll, ih h.2, erase_put_of_ne h.1]

/-- Values that are set take the place of the entries of their names. -/
theorem putAll_perm {updates : List (String × α)} (h : (names updates).Nodup)
    (entries : List (String × α)) :
    (putAll entries updates).Perm (updates ++ eraseAll (names updates) entries) := by
  induction updates generalizing entries with
  | nil => exact .refl _
  | cons update updates ih =>
      obtain ⟨name, value⟩ := update
      rw [names_cons, List.nodup_cons] at h
      rw [putAll_cons]
      refine (ih h.2 _).trans ?_
      rw [eraseAll_put_of_not_mem h.1]
      exact ((put_perm _ _ _).append_left _).trans List.perm_middle

/-! ### Sorting -/

theorem lookup_map_snd (f : α → β) (entries : List (String × α)) (name : String) :
    (entries.map fun entry => (entry.1, f entry.2)).lookup name =
      (entries.lookup name).map f := by
  induction entries with
  | nil => rfl
  | cons entry entries ih =>
      rw [List.map_cons, List.lookup_cons, List.lookup_cons, ih]
      split <;> rfl

theorem lookup_eq_head?_filter (name : String) (entries : List (String × α)) :
    entries.lookup name = ((entries.filter fun entry => entry.1 == name).head?).map (·.2) := by
  induction entries with
  | nil => rfl
  | cons entry entries ih =>
      obtain ⟨other, value⟩ := entry
      by_cases heq : other = name
      · subst heq
        simp
      · rw [List.lookup_cons, beq_false_of_ne (Ne.symm heq), ih]
        simp [heq]

/-- Sorting by names keeps the order of entries of one name. -/
theorem filter_mergeSort (name : String) (entries : List (String × α)) :
    (entries.mergeSort fun a b => (compare a.1 b.1).isLE).filter (fun entry => entry.1 == name) =
      entries.filter fun entry => entry.1 == name :=
  Sorting.filter_mergeSort_key Prod.fst name entries

/-- Sorting by names does not change what a name means. -/
theorem lookup_mergeSort (name : String) (entries : List (String × α)) :
    (entries.mergeSort fun a b => (compare a.1 b.1).isLE).lookup name = entries.lookup name := by
  rw [lookup_eq_head?_filter, filter_mergeSort, ← lookup_eq_head?_filter]

end Campus.Assoc
