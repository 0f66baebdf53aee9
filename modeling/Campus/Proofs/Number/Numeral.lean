import Campus.Json.Printer
import Campus.Number.Numeral
import Campus.Proofs.Number.Shortest

/-!
# The numerals that are written

Every text of a number is the text of a numeral: `Numeral.ofInt` for an integer, and
`Numeral.ofScientific` for a decimal, which shows its digits with a point among them or with a power
of ten. The numeral is split into its parts again, keeps the strict rule, and denotes what was
written.

* `Numeral.ofChars?_chars` — a numeral is split off its own characters.
* `printScientific_eq_chars` — a decimal is written as its numeral.
* `Numeral.toFloat_ofScientific` — the numeral of a shortest decimal is read as its double.
-/

namespace Campus.Number

open Campus.Json (printNat printInt printScientific printPositional printPower isPositional)

variable {cs digits rest : List Char} {sign : Option Char} {n : Numeral} {s : Scientific}

/-! ### The characters of a numeral -/

namespace Numeral

/-- A point and the digits after it, if there is one. -/
def fractionChars : Option (List Char) → List Char
  | none => []
  | some digits => '.' :: digits

/-- A power of ten, if there is one. -/
def powerChars : Option (Option Char × List Char) → List Char
  | none => []
  | some (sign, digits) => 'e' :: (sign.toList ++ digits)

/-- The characters of a numeral. -/
def chars (n : Numeral) : List Char :=
  n.sign.toList ++ (n.whole ++ (fractionChars n.fraction ++ powerChars n.power))

/-- The list holds digits only. -/
def AllDigits (cs : List Char) : Prop := ∀ c ∈ cs, c.isDigit = true

/-- What is written as a sign is one. -/
def IsSign (sign : Option Char) : Prop := ∀ c ∈ sign, c = '-' ∨ c = '+'

/-- Signs are signs and digits are digits. -/
structure WellFormed (n : Numeral) : Prop where
  sign : IsSign n.sign
  whole : AllDigits n.whole
  fraction : ∀ f ∈ n.fraction, AllDigits f
  power : ∀ p ∈ n.power, IsSign p.1 ∧ AllDigits p.2

theorem isDigit_ne_sign {c : Char} (h : c.isDigit = true) : c ≠ '-' ∧ c ≠ '+' := by
  constructor <;> rintro rfl <;> cases h

theorem takeSign_append (h : IsSign sign) (hrest : ∀ c ∈ rest.head?, c ≠ '-' ∧ c ≠ '+') :
    takeSign (sign.toList ++ rest) = (sign, rest) := by
  cases sign with
  | some c => rcases h c rfl with rfl | rfl <;> rfl
  | none =>
      cases rest with
      | nil => rfl
      | cons c rest =>
          obtain ⟨hminus, hplus⟩ := hrest c rfl
          unfold takeSign
          split
          · next heq =>
            cases heq
            exact absurd rfl hminus
          · next heq =>
            cases heq
            exact absurd rfl hplus
          · rfl

/-- A run of digits ends where no digit follows. -/
theorem takeWhile_digits (h : AllDigits cs) (hrest : ∀ c ∈ rest.head?, c.isDigit = false) :
    (cs ++ rest).takeWhile Char.isDigit = cs ∧ (cs ++ rest).dropWhile Char.isDigit = rest := by
  have hstop : rest.takeWhile Char.isDigit = [] ∧ rest.dropWhile Char.isDigit = rest := by
    cases rest with
    | nil => exact ⟨rfl, rfl⟩
    | cons c rest => simp [hrest c rfl]
  rw [List.takeWhile_append_of_pos h, List.dropWhile_append_of_pos h, hstop.1, hstop.2]
  simp

theorem head?_powerChars (power : Option (Option Char × List Char)) :
    ∀ c ∈ (powerChars power).head?, c = 'e' := by
  cases power <;> simp [powerChars]

theorem takePower?_powerChars {power : Option (Option Char × List Char)}
    (h : ∀ p ∈ power, IsSign p.1 ∧ AllDigits p.2) : takePower? (powerChars power) = some power := by
  cases power with
  | none => rfl
  | some p =>
      obtain ⟨sign, digits⟩ := p
      obtain ⟨hsign, hdigits⟩ := h _ rfl
      have hsplit : takeSign (sign.toList ++ digits) = (sign, digits) :=
        takeSign_append hsign fun c hc => isDigit_ne_sign (hdigits c (List.mem_of_mem_head? hc))
      have hall : digits.all Char.isDigit = true := List.all_eq_true.mpr hdigits
      simp [takePower?, powerChars, hsplit, hall]

theorem takeFraction_append {fraction : Option (List Char)} (h : ∀ f ∈ fraction, AllDigits f)
    (power : Option (Option Char × List Char)) :
    takeFraction (fractionChars fraction ++ powerChars power) = (fraction, powerChars power) := by
  cases fraction with
  | none =>
      obtain _ | ⟨sign, digits⟩ := power <;> rfl
  | some digits =>
      have hend : ∀ c ∈ (powerChars power).head?, c.isDigit = false := by
        intro c hc
        obtain rfl := head?_powerChars power c hc
        rfl
      have hrun := takeWhile_digits (h digits rfl) hend
      simp [takeFraction, fractionChars, hrun]

/-- After the whole part comes a point, the letter of a power, or nothing. -/
theorem head?_fractionChars_append (fraction : Option (List Char))
    (power : Option (Option Char × List Char)) :
    ∀ c ∈ (fractionChars fraction ++ powerChars power).head?, c = '.' ∨ c = 'e' := by
  cases fraction with
  | none => exact fun c hc => .inr (head?_powerChars power c hc)
  | some digits => simp [fractionChars]

/-- A numeral is split off its own characters. -/
theorem ofChars?_chars (h : n.WellFormed) : ofChars? n.chars = some n := by
  obtain ⟨sign, whole, fraction, power⟩ := n
  have hend : ∀ c ∈ (fractionChars fraction ++ powerChars power).head?, c.isDigit = false := by
    intro c hc
    rcases head?_fractionChars_append fraction power c hc with rfl | rfl <;> rfl
  have hwhole := takeWhile_digits h.whole hend
  have hsign : takeSign (sign.toList ++ (whole ++ (fractionChars fraction ++ powerChars power))) =
      (sign, whole ++ (fractionChars fraction ++ powerChars power)) := by
    refine takeSign_append h.sign fun c hc => ?_
    cases whole with
    | nil => rcases head?_fractionChars_append fraction power c hc with rfl | rfl <;> decide
    | cons d whole =>
        cases hc
        exact isDigit_ne_sign (h.whole _ (by simp))
  simp only [ofChars?, chars, hsign, hwhole.1, hwhole.2, takeFraction_append h.fraction,
    takePower?_powerChars h.power, Option.map_some]

/-! ### Digits -/

theorem allDigits_printNat (m : Nat) : AllDigits (printNat m) :=
  fun _ => Nat.isDigit_of_mem_toDigits (by decide) (by decide)

theorem printNat_ne_nil (m : Nat) : printNat m ≠ [] := Nat.toDigits_ne_nil

theorem digitsValue_printNat (m : Nat) : digitsValue (printNat m) = m :=
  Nat.ofDigitChars_ten_toDigits

/-- No number but zero is written with a zero in front. -/
theorem head?_printNat {m : Nat} (h : m ≠ 0) : (printNat m).head? ≠ some '0' := by
  unfold printNat
  -- All digits but the last are those of `m / 10`, so the induction is on the value.
  induction m using Nat.strongRecOn with
  | ind m ih =>
      rw [Nat.toDigits_eq_if (by decide)]
      split
      · simpa using h
      · have hrest := ih (m / 10) (by omega) (by omega)
        obtain ⟨c, cs, hcs⟩ := List.exists_cons_of_ne_nil (printNat_ne_nil (m / 10))
        unfold printNat at hcs
        rw [hcs] at hrest ⊢
        exact hrest

theorem digitsValue_append_zeros (cs : List Char) (k : Nat) :
    digitsValue (cs ++ List.replicate k '0') = digitsValue cs * 10 ^ k := by
  rw [digitsValue, Nat.ofDigitChars_append, Nat.ofDigitChars_replicate_zero, Nat.mul_comm]
  rfl

theorem digitsValue_zeros_append (cs : List Char) (k : Nat) :
    digitsValue (List.replicate k '0' ++ cs) = digitsValue cs := by
  rw [digitsValue, Nat.ofDigitChars_append, Nat.ofDigitChars_replicate_zero, Nat.mul_zero]
  rfl

/-! ### Integers -/

/-- The sign of a negative number. -/
def minus (negative : Bool) : Option Char := if negative then some '-' else none

theorem isSign_minus (negative : Bool) : IsSign (minus negative) := by
  cases negative <;> simp [IsSign, minus]

theorem minus_eq_iff (negative : Bool) : minus negative = some '-' ↔ negative = true := by
  cases negative <;> simp [minus]

/-- The numeral of an integer. -/
def ofInt (m : Int) : Numeral := ⟨minus (m < 0), printNat m.natAbs, none, none⟩

theorem printInt_eq_chars (m : Int) : printInt m = (ofInt m).chars := by
  unfold printInt
  split <;> simp [chars, ofInt, minus, fractionChars, powerChars, *]

theorem wellFormed_ofInt (m : Int) : (ofInt m).WellFormed :=
  ⟨isSign_minus _, allDigits_printNat _, by simp [ofInt], by simp [ofInt]⟩

/-- What is shown first of a number that is not zero makes a strict numeral. -/
theorem isStrict_iff_of_minus {negative : Bool} {whole : List Char}
    {fraction : Option (List Char)} {power : Option (Option Char × List Char)} :
    isStrict ⟨minus negative, whole, fraction, power⟩ = true ↔
      whole ≠ [] ∧ (whole.head? ≠ some '0' ∨ whole.length = 1) ∧ (∀ f ∈ fraction, f ≠ []) ∧
        ∀ p ∈ power, p.2 ≠ [] := by
  cases negative <;> cases fraction <;> cases power <;>
    simp [isStrict, minus, powerComplete, and_assoc]

theorem isStrict_ofInt (m : Int) : (ofInt m).isStrict = true := by
  refine isStrict_iff_of_minus.mpr ⟨printNat_ne_nil _, ?_, by simp, by simp⟩
  by_cases hm : m.natAbs = 0
  · rw [hm]
    exact .inr rfl
  · exact .inl (head?_printNat hm)

theorem toScientific_ofInt (m : Int) : (ofInt m).toScientific = ⟨m < 0, m.natAbs, 0⟩ := by
  simp [toScientific, ofInt, digitsValue_printNat, powerValue, minus_eq_iff]

/-! ### Decimals -/

/-- The digits of `0.d₁d₂… · 10 ^ point` before and after the point. -/
def splitDigits (digits : List Char) (point : Int) : List Char × List Char :=
  if point ≤ 0 then (['0'], List.replicate (-point).toNat '0' ++ digits)
  else if digits.length ≤ point.toNat then
    (digits ++ List.replicate (point.toNat - digits.length) '0', ['0'])
  else (digits.take point.toNat, digits.drop point.toNat)

/-- The numeral that shows a point among the digits. -/
def positional (negative : Bool) (digits : List Char) (point : Int) : Numeral :=
  ⟨minus negative, (splitDigits digits point).1, some (splitDigits digits point).2, none⟩

/-- The numeral that shows one digit before the point, and the power of ten. -/
def powered (negative : Bool) (digits : List Char) (power : Int) : Numeral :=
  ⟨minus negative, digits.take 1, if digits.length ≤ 1 then none else some (digits.drop 1),
    some (some (if power < 0 then '-' else '+'), printNat power.natAbs)⟩

/-- The numeral of a decimal. -/
def ofScientific (s : Scientific) : Numeral :=
  let digits := printNat s.digits
  let point := s.exponent + digits.length
  if s.digits = 0 then ⟨minus s.negative, ['0'], some ['0'], none⟩
  else if isPositional (point - 1) then positional s.negative digits point
  else powered s.negative digits (point - 1)

theorem printPositional_eq (digits : List Char) (point : Int) :
    printPositional digits point =
      (splitDigits digits point).1 ++ '.' :: (splitDigits digits point).2 := by
  unfold printPositional splitDigits
  dsimp only
  split
  · rfl
  · split <;> simp

theorem printPower_eq (digits : List Char) (power : Int) :
    printPower digits power = (powered false digits power).chars := by
  unfold printPower chars powered minus fractionChars powerChars
  match digits with
  | [] => rfl
  | [_] => rfl
  | _ :: _ :: _ => simp

/-- A decimal is written as its numeral. -/
theorem printScientific_eq_chars (s : Scientific) :
    printScientific s = (ofScientific s).chars := by
  have hpoint : ∀ length : Nat, s.exponent + length - 1 + 1 = s.exponent + length := by omega
  unfold printScientific ofScientific
  dsimp only
  rw [hpoint, printPositional_eq, printPower_eq]
  by_cases hzero : s.digits = 0
  · rw [if_pos hzero, if_pos hzero]
    cases s.negative <;> rfl
  · rw [if_neg hzero, if_neg hzero]
    by_cases hpositional : isPositional (s.exponent + (printNat s.digits).length - 1) = true
    · rw [if_pos hpositional, if_pos hpositional]
      cases s.negative <;> simp [chars, positional, minus, fractionChars, powerChars]
    · rw [if_neg hpositional, if_neg hpositional]
      cases s.negative <;> simp [chars, powered, minus]

theorem allDigits_zeros (k : Nat) : AllDigits (List.replicate k '0') := by
  intro c hc
  obtain rfl := List.eq_of_mem_replicate hc
  rfl

theorem AllDigits.append {cs'} (h : AllDigits cs) (h' : AllDigits cs') : AllDigits (cs ++ cs') :=
  fun c hc => (List.mem_append.mp hc).elim (h c) (h' c)

theorem AllDigits.of_subset {cs'} (h : AllDigits cs) (hsub : cs' ⊆ cs) : AllDigits cs' :=
  fun c hc => h c (hsub hc)

theorem wellFormed_positional (h : AllDigits digits) (negative : Bool) (point : Int) :
    (positional negative digits point).WellFormed := by
  have hsplit :
      AllDigits (splitDigits digits point).1 ∧ AllDigits (splitDigits digits point).2 := by
    unfold splitDigits
    split
    · exact ⟨allDigits_zeros 1, (allDigits_zeros _).append h⟩
    · split
      · exact ⟨h.append (allDigits_zeros _), allDigits_zeros 1⟩
      · exact ⟨h.of_subset (List.take_subset _ _), h.of_subset (List.drop_subset _ _)⟩
  exact ⟨isSign_minus _, hsplit.1, by simpa [positional] using hsplit.2, by simp [positional]⟩

theorem wellFormed_powered (h : AllDigits digits) (negative : Bool) (power : Int) :
    (powered negative digits power).WellFormed := by
  refine ⟨isSign_minus _, h.of_subset (List.take_subset _ _), ?_, ?_⟩
  · intro f hf
    simp only [powered] at hf
    split at hf
    · cases hf
    · cases hf
      exact h.of_subset (List.drop_subset _ _)
  · rintro p ⟨⟩
    refine ⟨?_, allDigits_printNat _⟩
    rintro c ⟨⟩
    split <;> simp

theorem isStrict_positional (hne : digits ≠ []) (hhead : digits.head? ≠ some '0')
    (negative : Bool) (point : Int) : (positional negative digits point).isStrict = true := by
  obtain ⟨d, digits, rfl⟩ := List.exists_cons_of_ne_nil hne
  rw [positional, isStrict_iff_of_minus]
  unfold splitDigits
  split
  · simp
  · next hpoint =>
    obtain ⟨k, hk⟩ : ∃ k, point.toNat = k + 1 := ⟨point.toNat - 1, by omega⟩
    rw [hk]
    split
    · exact ⟨by simp, .inl (by simpa using hhead), by simp, by simp⟩
    · next hlong =>
      refine ⟨by simp, .inl (by simpa using hhead), ?_, by simp⟩
      simpa using hlong

theorem isStrict_powered (hne : digits ≠ []) (negative : Bool) (power : Int) :
    (powered negative digits power).isStrict = true := by
  obtain ⟨d, digits, rfl⟩ := List.exists_cons_of_ne_nil hne
  rw [powered, isStrict_iff_of_minus]
  refine ⟨by simp, .inr (by simp), ?_, by simpa using printNat_ne_nil _⟩
  cases digits <;> simp

/-- The digits on both sides of the point, and how many of them come after it. -/
theorem splitDigits_value (digits : List Char) (point : Int) :
    ∃ k : Nat, digitsValue ((splitDigits digits point).1 ++ (splitDigits digits point).2) =
        digitsValue digits * 10 ^ k ∧
      -((splitDigits digits point).2.length : Int) = point - digits.length - k := by
  unfold splitDigits
  split
  · next hsmall =>
    refine ⟨0, ?_, ?_⟩
    · have hzeros := digitsValue_zeros_append digits ((-point).toNat + 1)
      simpa [List.replicate_succ] using hzeros
    · simp only [List.length_append, List.length_replicate]
      omega
  · split
    · next hlong =>
      refine ⟨point.toNat - digits.length + 1, ?_, ?_⟩
      · rw [← digitsValue_append_zeros, List.replicate_succ']
        simp
      · simp only [List.length_singleton]
        omega
    · next hshort =>
      refine ⟨0, by simp, ?_⟩
      simp only [List.length_drop]
      omega

theorem toScientific_positional (negative : Bool) (digits : List Char) (point : Int) :
    ∃ k : Nat, (positional negative digits point).toScientific =
      ⟨negative, digitsValue digits * 10 ^ k, point - digits.length - k⟩ := by
  obtain ⟨k, hvalue, hlength⟩ := splitDigits_value digits point
  refine ⟨k, ?_⟩
  simp [toScientific, positional, powerValue, minus_eq_iff, hvalue, ← hlength]

theorem toScientific_powered (hne : digits ≠ []) (negative : Bool) (power : Int) :
    (powered negative digits power).toScientific =
      ⟨negative, digitsValue digits, power + 1 - digits.length⟩ := by
  obtain ⟨d, digits, rfl⟩ := List.exists_cons_of_ne_nil hne
  have hpower : powerValue (powered negative (d :: digits) power) = power := by
    simp only [powerValue, powered, digitsValue_printNat]
    by_cases hnegative : power < 0
    · rw [if_pos hnegative, if_pos rfl]
      omega
    · rw [if_neg hnegative, if_neg (by decide)]
      omega
  simp only [toScientific, hpower]
  cases digits with
  | nil => simp [powered, minus_eq_iff]
  | cons d' digits => simp [powered, minus_eq_iff]

/-- What the numeral of a decimal denotes has zeros added at its end, or is zero as well. -/
theorem toScientific_ofScientific (h : s.digits ≠ 0) :
    ∃ k : Nat, (ofScientific s).toScientific = ⟨s.negative, s.digits * 10 ^ k, s.exponent - k⟩ := by
  unfold ofScientific
  dsimp only
  rw [if_neg h]
  split
  · obtain ⟨k, hk⟩ := toScientific_positional s.negative (printNat s.digits)
      (s.exponent + (printNat s.digits).length)
    refine ⟨k, ?_⟩
    rw [hk, digitsValue_printNat]
    congr 1
    omega
  · refine ⟨0, ?_⟩
    rw [toScientific_powered (printNat_ne_nil _), digitsValue_printNat]
    congr 1
    · omega
    · omega

theorem wellFormed_ofScientific (s : Scientific) : (ofScientific s).WellFormed := by
  unfold ofScientific
  dsimp only
  split
  · exact ⟨isSign_minus _, allDigits_zeros 1, by simpa using allDigits_zeros 1, by simp⟩
  · split
    · exact wellFormed_positional (allDigits_printNat _) _ _
    · exact wellFormed_powered (allDigits_printNat _) _ _

theorem isStrict_ofScientific (s : Scientific) : (ofScientific s).isStrict = true := by
  unfold ofScientific
  dsimp only
  split
  · simp [isStrict_iff_of_minus]
  · next hzero =>
    split
    · exact isStrict_positional (printNat_ne_nil _) (head?_printNat hzero) _ _
    · exact isStrict_powered (printNat_ne_nil _) _ _

/-- A decimal is never mistaken for an integer. -/
theorem isWhole_ofScientific (s : Scientific) : (ofScientific s).isWhole = false := by
  unfold ofScientific
  dsimp only
  split
  · rfl
  · split <;> simp [isWhole, positional, powered]

/-- The numeral of the shortest decimal of a double is read as the double. -/
theorem toFloat_ofScientific {tie : Tie} {x : Float} (h : Scientific.ofFloat? tie x = some s) :
    (ofScientific s).toScientific.toFloat = x := by
  by_cases hzero : s.digits = 0
  · have hread : (ofScientific s).toScientific = ⟨s.negative, 0, -1⟩ := by
      simp [ofScientific, hzero, toScientific, digitsValue, Nat.ofDigitChars, powerValue,
        minus_eq_iff]
    rw [hread]
    exact Scientific.toFloat_eq_of_ofFloat? h rfl (by simp [hzero])
  · obtain ⟨k, hk⟩ := toScientific_ofScientific hzero
    rw [hk]
    refine Scientific.toFloat_eq_of_ofFloat? h rfl ?_
    -- Zeros at the end of a decimal do not move it.
    rw [zpow_sub₀ (by norm_num), zpow_natCast]
    push_cast
    field_simp

end Numeral

end Campus.Number
