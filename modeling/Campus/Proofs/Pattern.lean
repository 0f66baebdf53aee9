import Campus.Pattern

/-!
# Patterns and the texts that spell them

`Pattern.written` puts the stars of a pattern's anchor back around its text. Reading a pattern is
its inverse (`Pattern.ofText?_eq_some_iff`), with one choice: a lone star could stand at either end
of an empty text, and is read as one at the start.
-/

namespace Campus

theorem takeLeadingStar_of_head {cs : List Char} (h : cs.head? ≠ some star) :
    takeLeadingStar cs = (false, cs) := by
  cases cs with
  | nil => rfl
  | cons c cs =>
      have hc : c ≠ star := by simpa using h
      simp [takeLeadingStar, hc]

theorem takeTrailingStar_append (cs : List Char) :
    takeTrailingStar (cs ++ [star]) = (true, cs) := by
  simp [takeTrailingStar]

theorem takeTrailingStar_of_not_mem {cs : List Char} (h : star ∉ cs) :
    takeTrailingStar cs = (false, cs) := by
  have hlast : cs.getLast? ≠ some star := fun hl => h (List.mem_of_getLast? hl)
  simp [takeTrailingStar, hlast]

theorem eq_append_of_takeLeadingStar {cs rest : List Char} {leading : Bool}
    (h : takeLeadingStar cs = (leading, rest)) :
    cs = (if leading then [star] else []) ++ rest := by
  cases cs with
  | nil => simp [takeLeadingStar] at h; simp [← h.1, ← h.2]
  | cons c cs =>
      by_cases hc : c = star
      · obtain ⟨rfl, rfl⟩ : true = leading ∧ cs = rest := by simpa [takeLeadingStar, hc] using h
        simp [hc]
      · obtain ⟨rfl, rfl⟩ : false = leading ∧ c :: cs = rest := by
          simpa [takeLeadingStar, hc] using h
        simp

theorem eq_append_of_takeTrailingStar {cs text : List Char} {trailing : Bool}
    (h : takeTrailingStar cs = (trailing, text)) :
    cs = text ++ (if trailing then [star] else []) := by
  unfold takeTrailingStar at h
  split at h
  · next hlast =>
    simp only [Prod.mk.injEq] at h
    obtain ⟨rfl, rfl⟩ := h
    obtain ⟨cs', rfl⟩ := List.getLast?_eq_some_iff.mp hlast
    simp
  · simp_all

namespace Pattern

/-- The characters of a pattern: its text between the stars of its anchor. -/
def written (p : Pattern) : List Char :=
  match p.anchor with
  | .whole => p.text.toList
  | .start => p.text.toList ++ [star]
  | .finish => star :: p.text.toList
  | .anywhere => star :: (p.text.toList ++ [star])

/-- Which pattern a text spells. There is no star inside, and a lone star is one at the start. -/
structure Spells (raw : String) (p : Pattern) : Prop where
  written : raw.toList = p.written
  inner : star ∉ p.text.toList
  lone : p ≠ ⟨.start, ""⟩

theorem ofText?_eq_some_iff {raw : String} {p : Pattern} :
    ofText? raw = some p ↔ Spells raw p := by
  unfold ofText?
  constructor
  · intro h
    rcases hlead : takeLeadingStar raw.toList with ⟨leading, rest⟩
    rcases htrail : takeTrailingStar rest with ⟨trailing, text⟩
    have hraw := eq_append_of_takeLeadingStar hlead
    have hrest := eq_append_of_takeTrailingStar htrail
    simp only [hlead, htrail] at h
    split at h
    · cases h
    · next hinner =>
      cases h
      refine ⟨?_, by simpa using hinner, ?_⟩
      · rw [hraw, hrest]
        cases leading <;> cases trailing <;> simp [Pattern.written, anchorOf]
      · intro hlone
        simp only [Pattern.mk.injEq] at hlone
        -- The star of an empty text at its end would have been taken off at the start.
        cases leading <;> cases trailing <;> simp [anchorOf] at hlone
        subst hlone
        simp_all [takeLeadingStar]
  · intro h
    obtain ⟨hwritten, hinner, hlone⟩ := h
    obtain ⟨anchor, text⟩ := p
    have hhead : text.toList.head? ≠ some star := fun h => hinner (List.mem_of_head? h)
    cases anchor with
    | whole =>
        simp only [Pattern.written] at hwritten
        simp [hwritten, takeLeadingStar_of_head hhead, takeTrailingStar_of_not_mem hinner, hinner,
          anchorOf]
    | start =>
        simp only [Pattern.written] at hwritten
        have hne : text.toList ≠ [] := by simpa [String.toList_eq_nil_iff] using hlone
        have hhead' : (text.toList ++ [star]).head? ≠ some star := by
          rwa [List.head?_append, Option.or_of_isSome (by simpa [List.isSome_head?] using hne)]
        simp [hwritten, takeLeadingStar_of_head hhead', takeTrailingStar_append, hinner, anchorOf]
    | finish =>
        simp only [Pattern.written] at hwritten
        simp [hwritten, takeLeadingStar, takeTrailingStar_of_not_mem hinner, hinner, anchorOf]
    | anywhere =>
        simp only [Pattern.written] at hwritten
        simp [hwritten, takeLeadingStar, takeTrailingStar_append, hinner, anchorOf]

end Pattern

end Campus
