import Campus.Scalar
import Mathlib

/-!
# Values that are the same

`Scalar.Same` says when two values are the same one: the same text, the same number, or both a zero.
This is what `==` decides (`Scalar.beq_iff_same`), so it is an equivalence, of values and of lists
of values.
-/

namespace Campus

/-- Numbers are the same one by their bits if they are equal or both a zero. -/
theorem Number.identity_inj {x y : Float} :
    identity x = identity y ↔ x = y ∨ (x == 0) = true ∧ (y == 0) = true := by
  have hzero {z : Float} (h : ¬(z == 0) = true) : z.toBits ≠ 0 := by
    intro hbits
    obtain rfl : z = 0 := Float.toBits_inj.mp hbits
    exact h (by decide)
  unfold identity
  by_cases hx : (x == 0) = true
  · by_cases hy : (y == 0) = true
    · simp [hx, hy]
    · have hne : x ≠ y := fun heq => hy (heq ▸ hx)
      simp [hx, hy, hne, (hzero hy).symm]
  · by_cases hy : (y == 0) = true
    · have hne : x ≠ y := fun heq => hx (heq ▸ hy)
      simp [hx, hy, hne, hzero hx]
    · simp [hx, hy, Float.toBits_inj]

namespace Scalar

/-- Two values are the same one. The sign of a zero does not matter. -/
inductive Same : Scalar → Scalar → Prop
  | number (x : Float) : Same (.number x) (.number x)
  | zeros {x y : Float} (hx : (x == 0) = true) (hy : (y == 0) = true) :
      Same (.number x) (.number y)
  | text (s : String) : Same (.text s) (.text s)

theorem beq_iff_same {v w : Scalar} : (v == w) = true ↔ Same v w := by
  change same v w = true ↔ Same v w
  cases v with
  | number x =>
      cases w with
      | number y =>
          rw [same, beq_iff_eq, Number.identity_inj]
          constructor
          · intro h
            rcases h with rfl | ⟨hx, hy⟩
            · exact .number x
            · exact .zeros hx hy
          · intro h
            cases h with
            | number => exact .inl rfl
            | zeros hx hy => exact .inr ⟨hx, hy⟩
      | text t => exact ⟨fun h => (nomatch h), fun h => (nomatch h)⟩
  | text s =>
      cases w with
      | number y => exact ⟨fun h => (nomatch h), fun h => (nomatch h)⟩
      | text t =>
          rw [same, beq_iff_eq]
          constructor
          · intro h
            exact h ▸ .text s
          · intro h
            cases h
            rfl

instance : EquivBEq Scalar where
  rfl := by
    intro v
    cases v with
    | number x => exact beq_iff_same.mpr (.number x)
    | text s => exact beq_iff_same.mpr (.text s)
  symm := by
    intro v w h
    cases beq_iff_same.mp h with
    | number x => exact h
    | zeros hx hy => exact beq_iff_same.mpr (.zeros hy hx)
    | text s => exact h
  trans := by
    intro v w u hvw hwu
    cases beq_iff_same.mp hvw with
    | number x => exact hwu
    | text s => exact hwu
    | zeros hx hy =>
        cases beq_iff_same.mp hwu with
        | number => exact hvw
        | zeros _ hz => exact beq_iff_same.mpr (.zeros hx hz)

/-- Lists of values are compared value by value. -/
theorem list_beq_iff {vs ws : List Scalar} :
    (vs == ws) = true ↔ List.Forall₂ (fun v w => (v == w) = true) vs ws := by
  induction vs generalizing ws with
  | nil => cases ws <;> simp
  | cons v vs ih =>
      cases ws with
      | nil => simp
      | cons w ws => simp [ih]

instance : EquivBEq (List Scalar) where
  rfl := by
    intro vs
    exact list_beq_iff.mpr (List.forall₂_same.mpr fun v _ => BEq.rfl)
  symm := by
    intro vs ws h
    exact list_beq_iff.mpr ((list_beq_iff.mp h).flip.imp fun _ _ hvw => BEq.symm hvw)
  trans := by
    intro vs ws us hvw hwu
    rw [list_beq_iff] at hvw hwu ⊢
    induction hvw generalizing us with
    | nil => exact hwu
    | cons hv _ ih =>
        cases hwu with
        | cons hw hws => exact .cons (BEq.trans hv hw) (ih hws)

end Scalar

end Campus
