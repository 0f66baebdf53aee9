import Campus.Json.Token
import Campus.Proofs.Number.Numeral

/-!
# What a text is cut into

A numeral or a word ends only with the character behind it, so what characters spell is said
together with what follows them (`Spells`): they are read as if their tokens had been there
already.

* `spells_printString`, `spells_chars` — what strings and numerals spell.
* `tokens?_of_spells` — a text is cut into the tokens that it spells.
-/

namespace Campus.Json

open Campus.Number (Numeral)
variable {r r' : Cutter} {c : Char} {cs cs' rest read : List Char} {token : Token}
  {ts ts' done : List Token}

namespace Cutter

/-- The tokens of a text that is read to its end. -/
def run? (r : Cutter) (cs : List Char) : Option (List Token) := (cs.foldlM step? r).bind finish?

theorem run?_nil (r : Cutter) : r.run? [] = r.finish? := rfl

theorem run?_cons (r : Cutter) (c : Char) (cs : List Char) :
    r.run? (c :: cs) = (r.step? c).bind fun r' => r'.run? cs := by
  unfold run?
  rw [List.foldlM_cons]
  cases r.step? c <;> rfl

theorem run?_cons_of_step? (h : r.step? c = some r') : r.run? (c :: cs) = r'.run? cs := by
  simp [run?_cons, h]

/-- Two cutters read alike if they go on alike, or finish alike where nothing follows. -/
theorem run?_of_ended (hfinish : r.finish? = r'.finish?)
    (hstep : ∀ c ∈ cs.head?, r.step? c = r'.step? c) : r.run? cs = r'.run? cs := by
  cases cs with
  | nil => exact hfinish
  | cons c cs => rw [run?_cons, run?_cons, hstep c rfl]

theorem run?_cons_of_start? (h : start? done c = some r') :
    run? ⟨.idle, done⟩ (c :: cs) = r'.run? cs :=
  run?_cons_of_step? h

end Cutter

open Cutter

/-- What follows a numeral or a word ends it. -/
def Ends (rest : List Char) : Prop :=
  ∀ c ∈ rest.head?, isNumeralChar c = false ∧ c.isAlpha = false

/-- The characters are read as the tokens, whatever ends them. -/
def Spells (cs : List Char) (ts : List Token) : Prop :=
  ∀ done rest, Ends rest → run? ⟨.idle, done⟩ (cs ++ rest) = run? ⟨.idle, ts.reverse ++ done⟩ rest

/-- A text is cut into the tokens that it spells. -/
theorem tokens?_of_spells (h : Spells cs ts) : tokens? cs = some ts := by
  have hrun := h [] [] (by simp [Ends])
  simpa [run?, tokens?, finish?] using hrun

/-! ### Punctuation -/

theorem start?_of_punctuation? (h : punctuation? c = some token) (done : List Token) :
    start? done c = some ⟨.idle, token :: done⟩ := by
  unfold punctuation? at h
  split_ifs at h <;> subst_vars <;> cases h <;> rfl

theorem ends_of_punctuation? (h : punctuation? c = some token) (cs : List Char) :
    Ends (c :: cs) := by
  rintro _ ⟨⟩
  unfold punctuation? at h
  split_ifs at h <;> subst_vars <;> decide

theorem Spells.nil : Spells [] [] := fun _ _ _ => rfl

/-- White space at the end spells nothing. -/
theorem Spells.concat_space (hspells : Spells cs ts) (h : isSpace c = true) :
    Spells (cs ++ [c]) ts := by
  intro done rest hrest
  have hends : Ends (c :: rest) := by
    rintro _ ⟨⟩
    simp only [isSpace, Bool.or_eq_true, decide_eq_true_eq] at h
    rcases h with ((rfl | rfl) | rfl) | rfl <;> decide
  rw [List.append_assoc, List.singleton_append, hspells _ _ hends]
  exact run?_cons_of_start? (by simp [start?, h])

theorem Spells.cons (h : punctuation? c = some token) (hspells : Spells cs ts) :
    Spells (c :: cs) (token :: ts) := by
  intro done rest hrest
  rw [List.cons_append, run?_cons_of_start? (start?_of_punctuation? h done), hspells _ _ hrest]
  simp

/-- Punctuation ends what is before it. -/
theorem Spells.append (hspells : Spells cs ts) (h : punctuation? c = some token)
    (hspells' : Spells cs' ts') : Spells (cs ++ c :: cs') (ts ++ token :: ts') := by
  intro done rest hrest
  rw [List.append_assoc, hspells _ _ (by simpa using ends_of_punctuation? h _),
    Spells.cons h hspells' _ _ hrest]
  simp

/-! ### Words -/

theorem run?_word (h : wordToken? read.reverse = some token) (hrest : Ends rest) :
    run? ⟨.word read, done⟩ rest = run? ⟨.idle, token :: done⟩ rest := by
  refine run?_of_ended (by simp [finish?, h]) fun c hc => ?_
  simp [step?, (hrest c hc).2, h]

theorem spells_word {word : List Char} (h : wordToken? word = some token) :
    Spells word [token] := by
  intro done rest hrest
  have hrun : run? ⟨.idle, done⟩ (word ++ rest) = run? ⟨.word word.reverse, done⟩ rest := by
    unfold wordToken? at h
    split_ifs at h <;> subst_vars <;> rfl
  rw [hrun, run?_word (by rwa [List.reverse_reverse]) hrest]
  rfl

/-! ### Numerals -/

theorem run?_numeral (h : numeralToken? read.reverse = some token) (hrest : Ends rest) :
    run? ⟨.numeral read, done⟩ rest = run? ⟨.idle, token :: done⟩ rest := by
  refine run?_of_ended (by simp [finish?, h]) fun c hc => ?_
  simp [step?, (hrest c hc).1, h]

theorem run?_numeralChars (h : ∀ c ∈ cs, isNumeralChar c = true) (read rest : List Char) :
    run? ⟨.numeral read, done⟩ (cs ++ rest) = run? ⟨.numeral (cs.reverse ++ read), done⟩ rest := by
  induction cs generalizing read with
  | nil => rfl
  | cons c cs ih =>
      have hstep : step? ⟨.numeral read, done⟩ c = some ⟨.numeral (c :: read), done⟩ := by
        simp [step?, h c (by simp)]
      rw [List.cons_append, run?_cons_of_step? hstep, ih fun c hc => h c (by simp [hc])]
      simp

theorem isNumeralChar_of_isDigit (h : c.isDigit = true) : isNumeralChar c = true := by
  simp [isNumeralChar, h]

theorem isNumeralChar_of_mem_chars {n : Numeral} (h : n.WellFormed) (hc : c ∈ n.chars) :
    isNumeralChar c = true := by
  have hsign : ∀ sign : Option Char, Numeral.IsSign sign → c ∈ sign → isNumeralChar c = true := by
    intro sign hsign hc
    rcases hsign c hc with rfl | rfl <;> rfl
  obtain ⟨sign, whole, fraction, power⟩ := n
  simp only [Numeral.chars, List.mem_append, Option.mem_toList] at hc
  rcases hc with hc | hc | hc | hc
  · exact hsign sign h.sign hc
  · exact isNumeralChar_of_isDigit (h.whole c hc)
  · cases fraction with
    | none => cases hc
    | some digits =>
        rcases List.mem_cons.mp hc with rfl | hc
        · rfl
        · exact isNumeralChar_of_isDigit (h.fraction digits rfl c hc)
  · obtain _ | ⟨powerSign, digits⟩ := power
    · cases hc
    · obtain ⟨hpowerSign, hdigits⟩ := h.power _ rfl
      simp only [Numeral.powerChars, List.mem_cons, List.mem_append, Option.mem_toList] at hc
      rcases hc with rfl | hc | hc
      · rfl
      · exact hsign powerSign hpowerSign hc
      · exact isNumeralChar_of_isDigit (hdigits c hc)

/-- A strict numeral begins with a digit or with a minus. -/
theorem exists_chars_eq_cons {n : Numeral} (h : n.WellFormed) (hstrict : n.isStrict = true) :
    ∃ c cs, n.chars = c :: cs ∧ (c.isDigit = true ∨ c = '-') := by
  obtain ⟨sign, whole, fraction, power⟩ := n
  simp only [Numeral.isStrict, Bool.and_eq_true, decide_eq_true_eq] at hstrict
  cases sign with
  | some c =>
      rcases h.sign c rfl with rfl | rfl
      · exact ⟨_, _, rfl, .inr rfl⟩
      · simp at hstrict
  | none =>
      cases whole with
      | nil => simp at hstrict
      | cons d whole => exact ⟨d, _, rfl, .inl (h.whole d (by simp))⟩

theorem start?_numeral (h : c.isDigit = true ∨ c = '-') (done : List Token) :
    start? done c = some ⟨.numeral [c], done⟩ := by
  have hspace : isSpace c = false := by
    by_contra hspace
    simp only [isSpace, Bool.not_eq_false, Bool.or_eq_true, decide_eq_true_eq] at hspace
    rcases hspace with ((rfl | rfl) | rfl) | rfl <;> rcases h with h | h <;> cases h
  have hquote : c ≠ '"' := by
    rintro rfl
    rcases h with h | h <;> cases h
  have hbegins : (c.isDigit || decide (c = '-')) = true := by simpa using h
  simp [start?, hspace, hquote, hbegins]

/-- A numeral spells itself. -/
theorem spells_chars {n : Numeral} (h : n.WellFormed) (hstrict : n.isStrict = true) :
    Spells n.chars [.number n] := by
  intro done rest hrest
  have htoken : numeralToken? n.chars = some (.number n) := by
    simp [numeralToken?, Numeral.ofChars?_chars h, hstrict]
  have hchars : ∀ c ∈ n.chars, isNumeralChar c = true := fun c => isNumeralChar_of_mem_chars h
  obtain ⟨c, cs, hcs, hc⟩ := exists_chars_eq_cons h hstrict
  rw [hcs] at htoken hchars ⊢
  rw [List.cons_append, run?_cons_of_start? (start?_numeral hc done),
    run?_numeralChars fun c hc => hchars c (by simp [hc])]
  rw [run?_numeral (by simpa using htoken) hrest]
  rfl

/-! ### Strings -/

/-- The control characters that have an escape of their own. -/
def hasShortEscape (c : Char) : Bool :=
  c = '\x08' || c = '\x0c' || c = '\n' || c = '\r' || c = '\t'

/-- How a character is written in a string. -/
def glyph (c : Char) : Glyph :=
  if c.toNat < 0x20 ∧ hasShortEscape c = false then .unicode c.toNat else .plain c

theorem hexDigit?_hexChar : ∀ n < 16, hexDigit? (hexChar n) = some n := by
  decide

/-- Four hexadecimal digits are read as the code that they show. -/
theorem run?_hexCode {glyphs : List Glyph} {code : Nat} (h : code < 2 ^ 16) (rest : List Char) :
    run? ⟨.hex glyphs 0 4, done⟩ (hexCode code ++ rest) =
      run? ⟨.string (.unicode code :: glyphs), done⟩ rest := by
  have hdigit : ∀ n, hexDigit? (hexChar (n % 16)) = some (n % 16) :=
    fun n => hexDigit?_hexChar _ (Nat.mod_lt _ (by decide))
  -- What four steps make of the digits, from the first to the last.
  have hcode : 16 * (16 * (16 * (16 * 0 + code / 4096 % 16) + code / 256 % 16) + code / 16 % 16) +
      code % 16 = code := by
    omega
  simp only [hexCode, List.cons_append, List.nil_append, run?_cons, step?, hdigit, Option.map_some,
    Option.bind_some, hcode]

/-- Inside a string the characters are read as the glyph. -/
def SpellsGlyph (cs : List Char) (g : Glyph) : Prop :=
  ∀ glyphs done rest,
    run? ⟨.string glyphs, done⟩ (cs ++ rest) = run? ⟨.string (g :: glyphs), done⟩ rest

theorem spellsGlyph_unicode {code : Nat} (h : code < 2 ^ 16) :
    SpellsGlyph ('\\' :: 'u' :: hexCode code) (.unicode code) :=
  fun _ _ rest => run?_hexCode h rest

/-- A character that is not escaped. -/
theorem spellsGlyph_plain (hquote : c ≠ '"') (hbackslash : c ≠ '\\') (h : 0x20 ≤ c.toNat) :
    SpellsGlyph [c] (.plain c) := by
  intro glyphs done rest
  rw [List.singleton_append]
  refine run?_cons_of_step? ?_
  simp [step?, hquote, hbackslash, h]

/-- Characters between quotes, however each of them is escaped, are a string. -/
theorem spells_quoted {escape : Char → List Char} {glyph : Char → Glyph}
    (h : ∀ c, SpellsGlyph (escape c) (glyph c)) (cs : List Char) :
    Spells ('"' :: (cs.flatMap escape ++ ['"'])) [.string (cs.map glyph)] := by
  have hbody (cs rest : List Char) (glyphs : List Glyph) (done : List Token) :
      run? ⟨.string glyphs, done⟩ (cs.flatMap escape ++ rest) =
        run? ⟨.string ((cs.map glyph).reverse ++ glyphs), done⟩ rest := by
    induction cs generalizing glyphs with
    | nil => rfl
    | cons c cs ih => simp [h c _ _ _, ih]
  intro done rest _
  have hopen : run? ⟨.idle, done⟩ ('"' :: (cs.flatMap escape ++ ['"']) ++ rest) =
      run? ⟨.string [], done⟩ (cs.flatMap escape ++ '"' :: rest) := by
    simp only [List.cons_append, List.append_assoc, List.nil_append]
    exact run?_cons_of_step? rfl
  rw [hopen, hbody, run?_cons_of_step? rfl]
  simp

theorem spellsGlyph_escape (c : Char) : SpellsGlyph (escape c) (glyph c) := by
  unfold escape
  split_ifs with h₁ h₂ h₃ h₄ h₅ h₆ h₇ h₈
  case pos => subst h₁; exact fun _ _ _ => rfl
  case pos => subst h₂; exact fun _ _ _ => rfl
  case pos => subst h₃; exact fun _ _ _ => rfl
  case pos => subst h₄; exact fun _ _ _ => rfl
  case pos => subst h₅; exact fun _ _ _ => rfl
  case pos => subst h₆; exact fun _ _ _ => rfl
  case pos => subst h₇; exact fun _ _ _ => rfl
  case pos =>
      have hglyph : glyph c = .unicode c.toNat := by simp [glyph, hasShortEscape, *]
      rw [hglyph]
      exact spellsGlyph_unicode (by omega)
  case neg =>
      have hglyph : glyph c = .plain c := by simp [glyph, h₈]
      rw [hglyph]
      exact spellsGlyph_plain h₁ h₂ (by omega)

/-- A string spells its characters. -/
theorem spells_printString (s : String) :
    Spells (printString s) [.string (s.toList.map glyph)] :=
  spells_quoted spellsGlyph_escape s.toList

end Campus.Json
