import Campus.Log
import Campus.Proofs.Json.Printing
import Campus.Proofs.Json.Rereading
import Campus.Proofs.Sorting
import Campus.Proofs.Text.ByteOrder

/-!
# What a log line says

Whoever reads a log line as JSON learns what was logged and nothing else: the quotes, the
backslashes and the control characters of a key or a value are escaped, so it ends neither its
string nor its line.

* `spells_chars` — a line is read as the tokens of its tree.
* `uncontrolled_body` — all of a line but its end is without control characters.
* `text_says_logged` — the line is one line, its members are what was logged with the keys sorted,
  and the order in which the fields are given does not matter.
-/

namespace Campus.LogLine

open Campus.Json (Glyph Spells SpellsGlyph Token Written)

/-! ### Reading a line -/

/-- How a character is written in a logged text. -/
def glyph (c : Char) : Glyph :=
  if isControl c ∧ c ≠ '\n' ∧ c ≠ '\r' ∧ c ≠ '\t' then .unicode c.toNat else .plain c

theorem glyph_eq (c : Char) : glyph c = .plain c ∨ glyph c = .unicode c.toNat := by
  unfold glyph
  split
  · exact .inr rfl
  · exact .inl rfl

theorem spellsGlyph_escape (c : Char) : SpellsGlyph (escape c) (glyph c) := by
  unfold escape
  split_ifs with h₁ h₂ h₃ h₄ h₅ h₆
  case pos => subst h₁; exact fun _ _ _ => rfl
  case pos => subst h₂; exact fun _ _ _ => rfl
  case pos => subst h₃; exact fun _ _ _ => rfl
  case pos => subst h₄; exact fun _ _ _ => rfl
  case pos => subst h₅; exact fun _ _ _ => rfl
  case pos =>
      have hglyph : glyph c = .unicode c.toNat := by simp [glyph, *]
      rw [hglyph]
      refine Json.spellsGlyph_unicode ?_
      simp only [isControl, Bool.or_eq_true, Bool.and_eq_true, decide_eq_true_eq] at h₆
      omega
  case neg =>
      have hglyph : glyph c = .plain c := by simp [glyph, h₆]
      rw [hglyph]
      refine Json.spellsGlyph_plain h₁ h₂ ?_
      simp only [isControl, Bool.or_eq_true, Bool.and_eq_true, decide_eq_true_eq] at h₆
      omega

theorem spells_quote (s : String) : Spells (quote s) [.string (s.toList.map glyph)] :=
  Json.spells_quoted spellsGlyph_escape s.toList

/-- A field as a member of a tree. -/
def writtenField (field : String × String) : List Glyph × Written :=
  (field.1.toList.map glyph, .string (field.2.toList.map glyph))

/-- A field and those behind it, without the comma before them, up to the end of the object. -/
theorem spells_fields (field : String × String) (fields : List (String × String)) :
    Spells (quote field.1 ++ ':' :: (quote field.2 ++ (fields.flatMap showField ++ ['\x7d'])))
      (Written.tokensOfMembers ((field :: fields).map writtenField)) := by
  induction fields generalizing field with
  | nil => exact (spells_quote field.1).append rfl ((spells_quote field.2).append rfl .nil)
  | cons next fields ih =>
      simp only [List.flatMap_cons, showField, List.cons_append, List.append_assoc]
      exact (spells_quote field.1).append rfl ((spells_quote field.2).append rfl (ih next))

/-- Everything that a line says: the event and the severity as fields in front of the others. -/
def logged (line : LogLine) : List (String × String) :=
  ("event", line.event) :: ("severity", line.severity.name) :: line.sortedFields

/-- A line up to the line feed. -/
def body (line : LogLine) : List Char :=
  '\x7b' :: (quote "event" ++ ':' :: (quote line.event ++
    ((("severity", line.severity.name) :: line.sortedFields).flatMap showField ++ ['\x7d'])))

theorem chars_eq_body (line : LogLine) : line.chars = line.body ++ ['\n'] := by
  simp [chars, body]

/-- A line is read as the tokens of its tree. -/
theorem spells_chars (line : LogLine) :
    Spells line.chars (Written.object (line.logged.map writtenField)).tokens := by
  have hfields := spells_fields ("event", line.event)
    (("severity", line.severity.name) :: line.sortedFields)
  rw [chars_eq_body, Written.tokens]
  exact (Spells.cons rfl hfields).concat_space rfl

theorem depthOfMembers_writtenField (fields : List (String × String)) :
    Written.depthOfMembers (fields.map writtenField) = 0 := by
  induction fields with
  | nil => rfl
  | cons field fields ih => rw [List.map_cons, writtenField, Written.depthOfMembers, ih]; rfl

/-- A field as a member of a value. -/
def member (field : String × String) : String × Json := (field.1, .string field.2)

theorem toMembers?_writtenField (done : List (String × Json)) (fields : List (String × String)) :
    Written.toMembers? done (fields.map writtenField) =
      some (Assoc.putAll done (fields.map member)) := by
  induction fields generalizing done with
  | nil => rfl
  | cons field fields ih =>
      simp only [List.map_cons, writtenField, Written.toMembers?, Json.textOf?_map glyph_eq,
        Written.toJson?, Option.bind_some, Option.map_some]
      exact ih _

/-- A line is read as an object of what was logged, if no key is logged twice. -/
theorem read?_text {line : LogLine} (h : (Assoc.names line.logged).Nodup) :
    Json.read? line.text = some (.object (line.logged.map member)) := by
  have htree : Written.ofChars? line.text.toList =
      some (.object (line.logged.map writtenField)) := by
    rw [text, String.toList_ofList, Written.ofChars?, Json.tokens?_of_spells (spells_chars line)]
    exact Written.ofTokens?_tokens _
  have hdepth : (Written.object (line.logged.map writtenField)).depth ≤ Json.nestingLimit := by
    rw [Written.depth, depthOfMembers_writtenField]
    decide
  have hnames : (Assoc.names ([] ++ line.logged.map member)).Nodup := by
    simpa [Assoc.names, Function.comp_def, member] using h
  simp only [Json.read?, Json.readWithin?, htree, Option.bind_some, hdepth, if_true,
    Written.toJson?, toMembers?_writtenField, Option.map_some, Assoc.putAll_eq_append hnames,
    List.nil_append]

/-! ### One line -/

/-- No control characters, neither those below the space nor those from delete on. -/
def Uncontrolled (cs : List Char) : Prop := ∀ c ∈ cs, isControl c = false

theorem uncontrolled_cons {c : Char} {cs : List Char} :
    Uncontrolled (c :: cs) ↔ isControl c = false ∧ Uncontrolled cs :=
  List.forall_mem_cons

theorem uncontrolled_append {cs cs' : List Char} :
    Uncontrolled (cs ++ cs') ↔ Uncontrolled cs ∧ Uncontrolled cs' :=
  List.forall_mem_append

theorem uncontrolled_flatMap {α : Type} {f : α → List Char} (h : ∀ a, Uncontrolled (f a))
    (items : List α) : Uncontrolled (items.flatMap f) := by
  intro c hc
  obtain ⟨a, -, hc⟩ := List.mem_flatMap.mp hc
  exact h a c hc

theorem isControl_hexChar : ∀ n < 16, isControl (Json.hexChar n) = false := by decide

theorem uncontrolled_escape (c : Char) : Uncontrolled (escape c) := by
  have hdigit (n : Nat) : isControl (Json.hexChar (n % 16)) = false :=
    isControl_hexChar _ (Nat.mod_lt _ (by decide))
  have hnil : Uncontrolled [] := by simp [Uncontrolled]
  unfold escape
  split_ifs with h₁ h₂ h₃ h₄ h₅ h₆
  case neg => exact uncontrolled_cons.mpr ⟨by simpa using h₆, hnil⟩
  all_goals
    simp only [Json.hexCode, uncontrolled_cons, hdigit, hnil, and_true]
    decide

theorem uncontrolled_quote (s : String) : Uncontrolled (quote s) := by
  rw [quote, uncontrolled_cons, uncontrolled_append]
  exact ⟨rfl, uncontrolled_flatMap uncontrolled_escape _, by simp [Uncontrolled, isControl]⟩

theorem uncontrolled_body (line : LogLine) : Uncontrolled line.body := by
  have hclose : Uncontrolled ['\x7d'] := by simp [Uncontrolled, isControl]
  have hfield (field : String × String) : Uncontrolled (showField field) := by
    simp only [showField, uncontrolled_cons, uncontrolled_append, uncontrolled_quote, and_true,
      true_and]
    decide
  simp only [body, uncontrolled_cons, uncontrolled_append, uncontrolled_quote, hclose,
    uncontrolled_flatMap hfield, and_true, true_and]
  decide

/-! ### The order of the fields -/

theorem sortedFields_eq (line : LogLine) :
    line.sortedFields = line.fields.mergeSort fun a b => (compare a.1 b.1).isLE := by
  have hle (o : Ordering) : (o != .gt) = o.isLE := by cases o <;> rfl
  simp only [sortedFields, hle]

theorem sortedFields_perm (line : LogLine) : line.sortedFields.Perm line.fields :=
  List.mergeSort_perm _ _

/-- Keys that do not repeat stand in increasing order. -/
theorem sortedFields_pairwise {line : LogLine} (h : (Assoc.names line.fields).Nodup) :
    line.sortedFields.Pairwise fun a b => a.1 < b.1 := by
  have hle : line.sortedFields.Pairwise fun a b => (compare a.1 b.1).isLE = true := by
    rw [sortedFields_eq]
    exact Sorting.pairwise_mergeSort Prod.fst line.fields
  have hne : line.sortedFields.Pairwise fun a b => a.1 ≠ b.1 :=
    List.pairwise_map.mp (((line.sortedFields_perm.map Prod.fst).nodup_iff).mpr h)
  refine (hle.and hne).imp fun {a b} hab => ?_
  have hless : compare a.1 b.1 = .lt := by
    cases hcompare : compare a.1 b.1 with
    | lt => rfl
    | eq => exact absurd (Std.LawfulEqCmp.eq_of_compare hcompare) hab.2
    | gt => exact absurd hab.1 (by simp [hcompare])
  exact Std.LawfulLTCmp.eq_lt_iff_lt.mp hless

/-- The order in which the fields are given does not matter. -/
theorem sortedFields_congr {line line' : LogLine} (hperm : line.fields.Perm line'.fields)
    (h : (Assoc.names line.fields).Nodup) : line.sortedFields = line'.sortedFields := by
  rw [sortedFields_eq, sortedFields_eq]
  exact Sorting.mergeSort_congr Prod.fst hperm h

/-! ### The text of a line -/

/-- A log line is one line, and it is read as what was logged: first the event and the severity,
which no other has the name of, then the fields in increasing byte order of their keys, all as they
were given. Whoever gives the fields in another order gets the same line. -/
theorem text_says_logged (line : LogLine) (hkeys : (Assoc.names line.fields).Nodup)
    (hevent : "event" ∉ Assoc.names line.fields)
    (hseverity : "severity" ∉ Assoc.names line.fields) :
    (∃ body, line.text.toList = body ++ ['\n'] ∧
      ∀ c ∈ body, ¬ (c.toNat ≤ 0x1F ∨ 0x7F ≤ c.toNat ∧ c.toNat ≤ 0x9F)) ∧
    (∃ fields : List (String × String), fields.Perm line.fields ∧
      fields.Pairwise (fun a b => utf8Bytes a.1 < utf8Bytes b.1) ∧
      Json.read? line.text = some (.object
        (("event", .string line.event) :: ("severity", .string line.severity.name) ::
          fields.map fun field => (field.1, .string field.2)))) ∧
    (∀ s : Severity, s.name = line.severity.name → s = line.severity) ∧
    ∀ fields : List (String × String), fields.Perm line.fields →
      LogLine.text { line with fields := fields } = line.text := by
  refine ⟨⟨line.body, ?_, fun c hc hcontrol => ?_⟩, ⟨line.sortedFields, line.sortedFields_perm,
    (sortedFields_pairwise hkeys).imp utf8Bytes_lt, read?_text ?_⟩,
    fun s hname => Severity.name_inj.mp hname, fun fields hperm => ?_⟩
  · rw [text, String.toList_ofList, chars_eq_body]
  · have hc := uncontrolled_body line c hc
    simp only [isControl, Bool.or_eq_false_iff, Bool.and_eq_false_iff, decide_eq_false_iff_not]
      at hc
    omega
  · have hnames : (Assoc.names line.sortedFields).Perm (Assoc.names line.fields) :=
      line.sortedFields_perm.map Prod.fst
    simp only [logged, Assoc.names_cons, List.nodup_cons, List.mem_cons, not_or, hnames.mem_iff,
      hnames.nodup_iff]
    exact ⟨⟨by decide, hevent⟩, hseverity, hkeys⟩
  · have hsorted : LogLine.sortedFields { line with fields := fields } = line.sortedFields :=
      (sortedFields_congr hperm.symm hkeys).symm
    simp only [text, chars, hsorted]

/-- A line of which the values try to end their strings and the line. -/
def sampleForgery : LogLine :=
  ⟨.warn, "query\u0085", [("é", "\"\x7d\n\x7b\"event\":\"FORGED"), ("z\t", "\\"), ("\"", "\u007f")]⟩

theorem text_says_logged_sampleForgery :
    (∃ body, sampleForgery.text.toList = body ++ ['\n'] ∧
      ∀ c ∈ body, ¬ (c.toNat ≤ 0x1F ∨ 0x7F ≤ c.toNat ∧ c.toNat ≤ 0x9F)) ∧
    (∃ fields : List (String × String), fields.Perm sampleForgery.fields ∧
      fields.Pairwise (fun a b => utf8Bytes a.1 < utf8Bytes b.1) ∧
      Json.read? sampleForgery.text = some (.object
        (("event", .string "query\u0085") :: ("severity", .string "WARN") ::
          fields.map fun field => (field.1, .string field.2)))) ∧
    (∀ s : Severity, s.name = "WARN" → s = .warn) ∧
    ∀ fields : List (String × String), fields.Perm sampleForgery.fields →
      LogLine.text { sampleForgery with fields := fields } = sampleForgery.text :=
  text_says_logged sampleForgery (by decide) (by decide) (by decide)

end Campus.LogLine
