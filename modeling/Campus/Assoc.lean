/-!
# Named values in order

Members of objects, cells of rows and entries of catalogs are lists of named values. `put` keeps
such a list free of repetitions: a name that is there keeps its place and takes the new value, a
new name goes to the end.
-/

namespace Campus.Assoc

variable {α : Type}

/-- `entries` with `name` set to `value`. -/
def put (name : String) (value : α) : List (String × α) → List (String × α)
  | [] => [(name, value)]
  | (other, old) :: rest =>
    if other = name then (name, value) :: rest else (other, old) :: put name value rest

/-- The names in order. -/
def names (entries : List (String × α)) : List String := entries.map (·.1)

/-- Sets the given values one after the other on top of `entries`. -/
def putAll (entries updates : List (String × α)) : List (String × α) :=
  updates.foldl (fun entries update => put update.1 update.2 entries) entries

theorem lookup_put_self (name : String) (value : α) (entries : List (String × α)) :
    (put name value entries).lookup name = some value := by
  induction entries with
  | nil => simp [put]
  | cons entry rest ih =>
    obtain ⟨other, old⟩ := entry
    by_cases h : other = name
    · simp [put, h]
    · simp [put, h, List.lookup_cons, beq_false_of_ne (Ne.symm h), ih]

theorem lookup_put_of_ne {name other : String} (h : other ≠ name) (value : α)
    (entries : List (String × α)) :
    (put name value entries).lookup other = entries.lookup other := by
  induction entries with
  | nil => simp [put, List.lookup_cons, beq_false_of_ne h]
  | cons entry rest ih =>
    obtain ⟨first, old⟩ := entry
    by_cases hf : first = name
    · subst hf
      simp [put, List.lookup_cons, beq_false_of_ne h]
    · simp only [put, hf, if_false, List.lookup_cons, ih]

@[simp] theorem names_nil : names ([] : List (String × α)) = [] := rfl

@[simp] theorem names_cons (entry : String × α) (rest : List (String × α)) :
    names (entry :: rest) = entry.1 :: names rest := rfl

theorem names_put (name : String) (value : α) (entries : List (String × α)) :
    names (put name value entries) =
      if name ∈ names entries then names entries else names entries ++ [name] := by
  induction entries with
  | nil => simp [put]
  | cons entry rest ih =>
    obtain ⟨other, old⟩ := entry
    by_cases h : other = name
    · simp [put, h]
    · by_cases hm : name ∈ names rest <;> simp [put, h, ih, hm, Ne.symm h]

end Campus.Assoc
