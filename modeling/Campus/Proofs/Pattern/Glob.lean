import Campus.Proofs.Pattern
import Mathlib.Data.List.Infix

/-!
# Patterns as globs

A text of a pattern can be read as a glob: a star stands for any characters, and every other
character for itself (`Globs`). `Pattern.accepts_iff_globs` says that patterns mean no more and no
less, although they are taken apart at both ends and compared in four ways. Not every glob is a
pattern: the stars have to be at the ends (`StarsAtEnds`).
-/

namespace Campus

/-! ### Globs -/

/-- Which texts a glob stands for. -/
inductive Globs : List Char → List Char → Prop
  | nil : Globs [] []
  | star {glob rest : List Char} (skipped : List Char) (others : Globs glob rest) :
      Globs (star :: glob) (skipped ++ rest)
  | char {c : Char} {glob rest : List Char} (plain : c ≠ Campus.star) (others : Globs glob rest) :
      Globs (c :: glob) (c :: rest)

section

variable {glob text value : List Char}

theorem globs_nil_iff : Globs [] value ↔ value = [] := by
  constructor
  · intro h
    cases h
    rfl
  · rintro rfl
    exact .nil

theorem globs_star_cons_iff :
    Globs (star :: glob) value ↔ ∃ skipped rest, value = skipped ++ rest ∧ Globs glob rest := by
  constructor
  · intro h
    cases h with
    | star skipped others => exact ⟨skipped, _, rfl, others⟩
    | char plain => exact absurd rfl plain
  · rintro ⟨skipped, rest, rfl, others⟩
    exact .star skipped others

theorem globs_cons_iff {c : Char} (hc : c ≠ star) :
    Globs (c :: glob) value ↔ ∃ rest, value = c :: rest ∧ Globs glob rest := by
  constructor
  · intro h
    cases h with
    | star => exact absurd rfl hc
    | char plain others => exact ⟨_, rfl, others⟩
  · rintro ⟨rest, rfl, others⟩
    exact .char hc others

/-- A text without stars stands for itself. -/
theorem globs_append_iff (h : star ∉ text) :
    Globs (text ++ glob) value ↔ ∃ rest, value = text ++ rest ∧ Globs glob rest := by
  induction text generalizing value with
  | nil => simp
  | cons c text ih =>
      rw [List.mem_cons, not_or] at h
      rw [List.cons_append, globs_cons_iff (Ne.symm h.1)]
      constructor
      · intro h'
        obtain ⟨behind, rfl, hbehind⟩ := h'
        obtain ⟨rest, hrest, others⟩ := (ih h.2).mp hbehind
        exact ⟨rest, by rw [hrest, List.cons_append], others⟩
      · intro h'
        obtain ⟨rest, rfl, others⟩ := h'
        exact ⟨text ++ rest, rfl, (ih h.2).mpr ⟨rest, rfl, others⟩⟩

theorem globs_iff_eq (h : star ∉ text) : Globs text value ↔ value = text := by
  have happend : Globs (text ++ []) value ↔ ∃ rest, value = text ++ rest ∧ Globs [] rest :=
    globs_append_iff h
  simpa [globs_nil_iff] using happend

/-- A star at the end stands for all that is left. -/
theorem globs_star (value : List Char) : Globs [star] value := by
  have hall : Globs [star] (value ++ []) := .star value .nil
  rwa [List.append_nil] at hall

theorem occursIn_iff : occursIn text value = true ↔ text <:+: value := by
  induction value with
  | nil => simp [occursIn]
  | cons c value ih =>
      rw [occursIn, Bool.or_eq_true, ih, List.isPrefixOf_iff_prefix, List.infix_cons_iff]

end

namespace Pattern

variable {raw : String} {p : Pattern}

/-- A pattern accepts what its written form stands for. -/
theorem accepts_iff_globs_written (h : star ∉ p.text.toList) (value : String) :
    p.accepts value = true ↔ Globs p.written value.toList := by
  obtain ⟨anchor, text⟩ := p
  cases anchor with
  | whole =>
      simp only [accepts, written, decide_eq_true_eq]
      exact (globs_iff_eq h).symm
  | start =>
      simp only [accepts, written, List.isPrefixOf_iff_prefix, globs_append_iff h]
      constructor
      · rintro ⟨rest, hrest⟩
        exact ⟨rest, hrest.symm, globs_star rest⟩
      · rintro ⟨rest, hrest, -⟩
        exact ⟨rest, hrest.symm⟩
  | finish =>
      simp only [accepts, written, List.isSuffixOf_iff_suffix, globs_star_cons_iff,
        globs_iff_eq h]
      constructor
      · rintro ⟨skipped, hskipped⟩
        exact ⟨skipped, _, hskipped.symm, rfl⟩
      · rintro ⟨skipped, _, hskipped, rfl⟩
        exact ⟨skipped, hskipped.symm⟩
  | anywhere =>
      simp only [accepts, written, occursIn_iff]
      rw [globs_star_cons_iff]
      constructor
      · intro hvalue
        obtain ⟨skipped, rest, hvalue⟩ := hvalue
        have hbehind : Globs (text.toList ++ [star]) (text.toList ++ rest) :=
          (globs_append_iff h).mpr ⟨rest, rfl, globs_star rest⟩
        exact ⟨skipped, text.toList ++ rest, by rw [← hvalue, List.append_assoc], hbehind⟩
      · intro hglobs
        obtain ⟨skipped, behind, hvalue, hbehind⟩ := hglobs
        obtain ⟨rest, rfl, -⟩ := (globs_append_iff h).mp hbehind
        exact ⟨skipped, rest, by rw [hvalue, List.append_assoc]⟩

/-! ### Which globs are patterns -/

/-- Every star is the first or the last character. -/
def StarsAtEnds (cs : List Char) : Prop :=
  ∀ i, cs[i]? = some star → i = 0 ∨ i + 1 = cs.length

/-- If at most one star was taken off at each end, and none was left there, the stars are at the ends
exactly if none is inside. -/
theorem starsAtEnds_append_iff {before text behind : List Char} (hbefore : before.length ≤ 1)
    (hbehind : behind.length ≤ 1) (hhead : before = [] → text.head? ≠ some star)
    (hlast : behind = [] → text.getLast? ≠ some star) :
    StarsAtEnds (before ++ (text ++ behind)) ↔ star ∉ text := by
  have hlength : (before ++ (text ++ behind)).length =
      before.length + (text.length + behind.length) := by
    rw [List.length_append, List.length_append]
  constructor
  · intro hends hmem
    obtain ⟨j, hj⟩ := List.mem_iff_getElem?.mp hmem
    obtain ⟨hlt, -⟩ := List.getElem?_eq_some_iff.mp hj
    have hat : (before ++ (text ++ behind))[before.length + j]? = some star := by
      rw [List.getElem?_append_right (Nat.le_add_right _ _), Nat.add_sub_cancel_left,
        List.getElem?_append_left hlt, hj]
    rcases hends _ hat with hfirst | hend
    · obtain ⟨hnone, rfl⟩ := Nat.add_eq_zero_iff.mp hfirst
      exact hhead (List.eq_nil_of_length_eq_zero hnone) (by rw [List.head?_eq_getElem?, hj])
    · rw [hlength] at hend
      obtain rfl : j = text.length - 1 := by omega
      refine hlast (List.eq_nil_of_length_eq_zero (by omega)) ?_
      rw [List.getLast?_eq_getElem?, hj]
  · intro hinner i hi
    obtain ⟨hlt, hstar⟩ := List.getElem?_eq_some_iff.mp hi
    rw [hlength] at hlt ⊢
    by_cases hfirst : i < before.length
    · left
      omega
    · right
      rw [List.getElem_append_right (not_lt.mp hfirst)] at hstar
      by_contra hend
      have hinside : i - before.length < text.length := by omega
      rw [List.getElem_append_left hinside] at hstar
      exact hinner (hstar ▸ List.getElem_mem hinside)

theorem head?_ne_star {cs rest : List Char} (h : takeLeadingStar cs = (false, rest)) :
    rest.head? ≠ some star := by
  cases cs with
  | nil =>
      cases h
      simp
  | cons c cs =>
      by_cases hc : c = star
      · simp [takeLeadingStar, hc] at h
      · obtain rfl : c :: cs = rest := by simpa [takeLeadingStar, hc] using h
        simpa using hc

theorem getLast?_ne_star {cs text : List Char} (h : takeTrailingStar cs = (false, text)) :
    text.getLast? ≠ some star := by
  by_cases hlast : cs.getLast? = some star
  · simp [takeTrailingStar, hlast] at h
  · obtain rfl : cs = text := by simpa [takeTrailingStar, hlast] using h
    exact hlast

/-- A text is refused for a star that is neither its first nor its last character. -/
theorem isSome_ofText?_iff : (ofText? raw).isSome = true ↔ StarsAtEnds raw.toList := by
  rcases hlead : takeLeadingStar raw.toList with ⟨leading, rest⟩
  rcases htrail : takeTrailingStar rest with ⟨trailing, text⟩
  have hrest := eq_append_of_takeTrailingStar htrail
  have hsome : (ofText? raw).isSome = true ↔ star ∉ text := by
    simp [ofText?, hlead, htrail]
  rw [hsome, eq_append_of_takeLeadingStar hlead, hrest]
  refine (starsAtEnds_append_iff ?_ ?_ ?_ ?_).symm
  · cases leading <;> simp
  · cases trailing <;> simp
  · intro hnone htext
    cases leading with
    | true => simp at hnone
    | false =>
        refine head?_ne_star hlead ?_
        rw [hrest, List.head?_append, htext, Option.some_or]
  · intro hnone
    cases trailing with
    | true => simp at hnone
    | false => exact getLast?_ne_star htrail

/-- A text is a pattern exactly if it has stars at its ends only, and a value is accepted exactly if
the text stands for it as a glob. -/
theorem accepts_iff_globs (raw : String) :
    ((ofText? raw).isSome = true ↔
        ∀ i, raw.toList[i]? = some '*' → i = 0 ∨ i + 1 = raw.toList.length) ∧
      ∀ p ∈ ofText? raw, ∀ value : String,
        p.accepts value = true ↔ Globs raw.toList value.toList := by
  refine ⟨isSome_ofText?_iff, fun p hp value => ?_⟩
  have hspells := ofText?_eq_some_iff.mp hp
  rw [hspells.written]
  exact accepts_iff_globs_written hspells.inner value

/-- Two stars stand for every value, also for one with a star. A star at the start only wants the
value to end with what follows. A star inside is refused. -/
theorem accepts_iff_globs_samples :
    (⟨.anywhere, ""⟩ ∈ ofText? "**" ∧ Globs ['*', '*'] ['a', '*']) ∧
      (⟨.finish, "é"⟩ ∈ ofText? "*é" ∧ ¬ Globs ['*', 'é'] ['é', '*']) ∧
      (ofText? "a*b").isSome = false := by
  have hboth : (⟨.anywhere, ""⟩ : Pattern) ∈ ofText? "**" := by decide
  have hfirst : (⟨.finish, "é"⟩ : Pattern) ∈ ofText? "*é" := by decide
  refine ⟨⟨hboth, ?_⟩, ⟨hfirst, ?_⟩, ?_⟩
  · exact ((accepts_iff_globs "**").2 _ hboth "a*").mp (by decide)
  · intro hglobs
    have haccepts : accepts ⟨.finish, "é"⟩ "é*" = true :=
      ((accepts_iff_globs "*é").2 _ hfirst "é*").mpr hglobs
    exact absurd haccepts (by decide)
  · rw [Bool.eq_false_iff, Ne, (accepts_iff_globs "a*b").1]
    intro hends
    exact absurd (hends 1 rfl) (by decide)

end Pattern

end Campus
