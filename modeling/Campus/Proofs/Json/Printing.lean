import Campus.Json.Printer
import Campus.Proofs.Json.Cutting

/-!
# A text is one line

No control character stands in the text of a value, whatever characters its strings have: they are
escaped, and everything else is written with characters from the space upwards
(`Json.printed_print`). So the text of a value has no line feed and no carriage return in
it.
-/

namespace Campus.Json

open Campus.Number (Numeral Scientific)

variable {c : Char}

/-- No control characters. -/
def Printed (cs : List Char) : Prop := ∀ c ∈ cs, 0x20 ≤ c.toNat

theorem printed_nil : Printed [] := by simp [Printed]

theorem printed_cons {cs : List Char} : Printed (c :: cs) ↔ 0x20 ≤ c.toNat ∧ Printed cs :=
  List.forall_mem_cons

theorem printed_append {cs cs' : List Char} : Printed (cs ++ cs') ↔ Printed cs ∧ Printed cs' :=
  List.forall_mem_append

theorem printed_word {word : List Char} (h : (word.all fun c => 0x20 ≤ c.toNat) = true) :
    Printed word := by
  simpa [Printed] using h

theorem space_le_of_isNumeralChar (h : isNumeralChar c = true) : 0x20 ≤ c.toNat := by
  simp only [isNumeralChar, Bool.or_eq_true, decide_eq_true_eq, Char.isDigit, Bool.and_eq_true] at h
  rcases h with ((((⟨h, -⟩ | rfl) | rfl) | rfl) | rfl) | rfl
  · exact (show 0x20 ≤ 48 by decide).trans h
  all_goals decide

theorem printed_chars {n : Numeral} (h : n.WellFormed) : Printed n.chars :=
  fun _ hc => space_le_of_isNumeralChar (isNumeralChar_of_mem_chars h hc)

/-! ### Strings -/

theorem space_le_hexChar : ∀ n < 16, 0x20 ≤ (hexChar n).toNat := by decide

theorem printed_hexCode (code : Nat) : Printed (hexCode code) := by
  have hdigit : ∀ n, 0x20 ≤ (hexChar (n % 16)).toNat :=
    fun n => space_le_hexChar _ (Nat.mod_lt _ (by decide))
  simp only [hexCode, printed_cons, hdigit, printed_nil, and_self]

theorem printed_escape (c : Char) : Printed (escape c) := by
  unfold escape
  split_ifs with _ _ _ _ _ _ _ hcontrol
  all_goals simp only [printed_cons, printed_hexCode, printed_nil, and_true]
  all_goals first | decide | omega

theorem printed_printString (s : String) : Printed (printString s) := by
  rw [printString, printed_cons, printed_append, printed_cons]
  refine ⟨by decide, ?_, by decide, printed_nil⟩
  intro c hc
  obtain ⟨original, -, hc⟩ := List.mem_flatMap.mp hc
  exact printed_escape original c hc

/-! ### Values -/

theorem Num.printed_print (n : Num) : Printed n.print := by
  cases n with
  | integer n =>
      rw [Num.print, Numeral.printInt_eq_chars]
      exact printed_chars (Numeral.wellFormed_ofInt n)
  | real x =>
      rw [Num.print]
      cases Scientific.ofFloat? .even x with
      | none => exact printed_word rfl
      | some s =>
          dsimp only
          rw [Numeral.printScientific_eq_chars]
          exact printed_chars (Numeral.wellFormed_ofScientific s)

mutual

/-- The text of a value has no control characters. -/
theorem printed_print : ∀ v : Json, Printed v.print
  | .null => printed_word rfl
  | .bool true => printed_word rfl
  | .bool false => printed_word rfl
  | .number n => n.printed_print
  | .string s => printed_printString s
  | .array items => printed_cons.mpr ⟨by decide, printed_printItems items⟩
  | .object members => printed_cons.mpr ⟨by decide, printed_printMembers members⟩

theorem printed_printItems : ∀ items : List Json, Printed (printItems items)
  | [] => printed_cons.mpr ⟨by decide, printed_nil⟩
  | [item] =>
      printed_append.mpr ⟨printed_print item, printed_cons.mpr ⟨by decide, printed_nil⟩⟩
  | item :: next :: items =>
      printed_append.mpr ⟨printed_print item,
        printed_cons.mpr ⟨by decide, printed_printItems (next :: items)⟩⟩

theorem printed_printMembers :
    ∀ members : List (String × Json), Printed (printMembers members)
  | [] => printed_cons.mpr ⟨by decide, printed_nil⟩
  | [(name, value)] =>
      printed_append.mpr ⟨printed_printString name, printed_cons.mpr ⟨by decide,
        printed_append.mpr ⟨printed_print value, printed_cons.mpr ⟨by decide, printed_nil⟩⟩⟩⟩
  | (name, value) :: next :: members =>
      printed_append.mpr ⟨printed_printString name, printed_cons.mpr ⟨by decide,
        printed_append.mpr ⟨printed_print value,
          printed_cons.mpr ⟨by decide, printed_printMembers (next :: members)⟩⟩⟩⟩

end

end Campus.Json
