import Campus.Filter.Reader
import Campus.Proofs.Query.Grammar
import Campus.Proofs.Reading
import Mathlib.Tactic.FinCases

/-!
# What reading a filter gives

`Filter.gives_read_iff`: the reader of the filter clause accepts exactly the values that spell a
filter, gives that filter, and mentions its keys. The reader sorts nodes by their operator before it
looks at the operand, so the relation is first sorted in the same way (`Filter.spelled_iff`); the
rest is one induction over the tree of nodes.
-/

namespace Campus

theorem Operator.ofToken?_eq_some_iff {token : String} {op : Operator} :
    Operator.ofToken? token = some op ↔ token = op.token := by
  constructor
  · intro h
    simpa [eq_comm] using List.find?_some h
  · rintro rfl
    rcases op with _ | _ | _ | _ | _ | _ | _ <;> decide

theorem mem_comparisonWords_iff {word : String} {op : Comparison} :
    (word, op) ∈ comparisonWords ↔ word = op.token := by
  constructor
  · intro h
    fin_cases h <;> rfl
  · rintro rfl
    cases op <;> decide

namespace Filter

variable {c : Catalog} {m m' : Mentions}

/-- Which filter a list of nodes spells that `make` is made of. -/
def ListSpelled (c : Catalog) (operand : Json) (f : Filter) (make : List Filter → Filter) : Prop :=
  ∃ items parts, operand = .array items ∧ items ≠ [] ∧ SpelledParts c items parts ∧ f = make parts

/-- Which filter an operator with its operand spells: `Spelled` sorted by operators, as the readers
take it apart. -/
def OperandSpelled (c : Catalog) (operand : Json) (f : Filter) : Operator → Prop
  | .and => ListSpelled c operand f .and
  | .or => ListSpelled c operand f .or
  | .not => ∃ part, Spelled c operand part ∧ f = .not part
  | .is => ∃ key text pattern, operand = .object [(key.text, .string text)] ∧
      c.Admits .text key ∧ pattern.Spells text ∧ f = .is key pattern
  | .compare op => ∃ key n, operand = .object [(key.text, .number n)] ∧ c.Admits .numeric key ∧
      f = .compare op key n.toFloat

theorem spelled_iff {v : Json} {f : Filter} :
    Spelled c v f ↔
      ∃ op operand, v = .object [(Operator.token op, operand)] ∧ OperandSpelled c operand f op := by
  constructor
  · intro h
    cases h with
    | and nonempty each => exact ⟨.and, _, rfl, _, _, rfl, nonempty, each, rfl⟩
    | or nonempty each => exact ⟨.or, _, rfl, _, _, rfl, nonempty, each, rfl⟩
    | not inner => exact ⟨.not, _, rfl, _, inner, rfl⟩
    | compare known admitted =>
        rw [mem_comparisonWords_iff] at known
        exact ⟨.compare _, _, by rw [known]; rfl, _, _, rfl, admitted, rfl⟩
    | is admitted pattern_spelled =>
        exact ⟨.is, _, rfl, _, _, _, rfl, admitted, pattern_spelled, rfl⟩
  · intro h
    obtain ⟨op, operand, rfl, h⟩ := h
    cases op with
    | and =>
        obtain ⟨items, parts, rfl, nonempty, each, rfl⟩ := h
        exact .and nonempty each
    | or =>
        obtain ⟨items, parts, rfl, nonempty, each, rfl⟩ := h
        exact .or nonempty each
    | not =>
        obtain ⟨part, inner, rfl⟩ := h
        exact .not inner
    | is =>
        obtain ⟨key, text, pattern, rfl, admitted, pattern_spelled, rfl⟩ := h
        exact .is admitted pattern_spelled
    | compare op =>
        obtain ⟨key, n, rfl, admitted, rfl⟩ := h
        exact .compare (mem_comparisonWords_iff.mpr rfl) admitted

theorem Spelled.shape_eq {v : Json} {f : Filter} (h : Spelled c v f) : v.shape = .object := by
  cases h <;> rfl

theorem OperandSpelled.shape_eq {op : Operator} {operand : Json} {f : Filter}
    (h : OperandSpelled c operand f op) : operand.shape = op.operandShape := by
  cases op with
  | and =>
      obtain ⟨items, parts, rfl, -⟩ := h
      rfl
  | or =>
      obtain ⟨items, parts, rfl, -⟩ := h
      rfl
  | not =>
      obtain ⟨part, inner, -⟩ := h
      exact inner.shape_eq
  | is =>
      obtain ⟨key, text, pattern, rfl, -⟩ := h
      rfl
  | compare op =>
      obtain ⟨key, n, rfl, -⟩ := h
      rfl

theorem gives_readCompare_iff {op : Comparison} {members : List (String × Json)} {f : Filter} :
    (readCompare c op members).Gives m f m' ↔
      OperandSpelled c (.object members) f (.compare op) ∧ m' = m.addKeys f.keys := by
  simp only [readCompare, OperandSpelled, Reading.gives_bind, Reading.gives_lift,
    expectSingle_eq_ok_iff, Catalog.expectKey_eq_ok_iff, Json.expectNumber_eq_ok_iff,
    Reading.gives_mention, Reading.gives_pure, Json.object.injEq]
  constructor
  · intro h
    obtain ⟨⟨raw, value⟩, _, ⟨rfl, rfl⟩, key, _, ⟨⟨rfl, hkey⟩, rfl⟩, _, _, ⟨⟨n, rfl, rfl⟩, rfl⟩,
      _, _, rfl, rfl, rfl⟩ := h
    exact ⟨⟨key, n, rfl, hkey, rfl⟩, rfl⟩
  · intro h
    obtain ⟨⟨key, n, rfl, hkey, rfl⟩, rfl⟩ := h
    exact ⟨(key.text, .number n), m, ⟨rfl, rfl⟩, key, m, ⟨⟨rfl, hkey⟩, rfl⟩, _, m,
      ⟨⟨n, rfl, rfl⟩, rfl⟩, (), _, rfl, rfl, rfl⟩

theorem gives_readIs_iff {members : List (String × Json)} {f : Filter} :
    (readIs c members).Gives m f m' ↔
      OperandSpelled c (.object members) f .is ∧ m' = m.addKeys f.keys := by
  simp only [readIs, OperandSpelled, Reading.gives_bind, Reading.gives_lift,
    expectSingle_eq_ok_iff, Catalog.expectKey_eq_ok_iff, Json.expectString_eq_ok_iff,
    Json.object.injEq]
  constructor
  · intro h
    obtain ⟨⟨raw, value⟩, _, ⟨rfl, rfl⟩, key, _, ⟨⟨rfl, hkey⟩, rfl⟩, text, _, ⟨rfl, rfl⟩, h⟩ := h
    split at h
    · simp at h
    · next pattern hpattern =>
      simp only [Reading.gives_bind, Reading.gives_mention, Reading.gives_pure] at h
      obtain ⟨_, _, rfl, rfl, rfl⟩ := h
      exact ⟨⟨key, text, pattern, rfl, hkey, Pattern.ofText?_eq_some_iff.mp hpattern, rfl⟩, rfl⟩
  · intro h
    obtain ⟨⟨key, text, pattern, rfl, hkey, hpattern, rfl⟩, rfl⟩ := h
    refine ⟨(key.text, .string text), m, ⟨rfl, rfl⟩, key, m, ⟨⟨rfl, hkey⟩, rfl⟩, text, m,
      ⟨rfl, rfl⟩, ?_⟩
    simp [Pattern.ofText?_eq_some_iff.mpr hpattern, keys]

/-- An operand of the wrong type is refused. -/
theorem readOperand_of_shape_ne {op : Operator} {operand : Json}
    (h : operand.shape ≠ op.operandShape) :
    readOperand c op operand =
      throw (.unexpectedType op.token op.operandShape.name operand.shape) := by
  cases operand <;> cases op <;>
    first
      | exact absurd rfl h
      | simp [readOperand, Json.shape]

/-- An operand of the wrong type spells nothing either. -/
theorem gives_readOperand_of_shape_ne {op : Operator} {operand : Json} {f : Filter}
    (h : operand.shape ≠ op.operandShape) :
    (readOperand c op operand).Gives m f m' ↔
      OperandSpelled c operand f op ∧ m' = m.addKeys f.keys := by
  have hspelled : ¬ OperandSpelled c operand f op := fun hs => h hs.shape_eq
  rw [readOperand_of_shape_ne h]
  simp [hspelled]

/-- Reading a list of nodes, given what reading the nodes gives. -/
theorem gives_list_iff {op : Operator} {items : List Json} {make : List Filter → Filter}
    {f : Filter} (keys_make : ∀ parts, (make parts).keys = keysAmong parts)
    (ih : ∀ {parts}, (readParts c op items).Gives m parts m' ↔
      SpelledParts c items parts ∧ m' = m.addKeys (keysAmong parts)) :
    (if items.isEmpty then throw (.emptyList op.token) else make <$> readParts c op items :
        Reading Filter).Gives m f m' ↔
      ListSpelled c (.array items) f make ∧ m' = m.addKeys f.keys := by
  simp only [List.isEmpty_iff, ListSpelled, Json.array.injEq]
  split
  · next hempty =>
    simp only [Reading.gives_throw, false_iff]
    intro h
    obtain ⟨⟨_, _, rfl, hne, -⟩, -⟩ := h
    exact hne hempty
  · next hne =>
    simp only [Reading.gives_map, ih]
    constructor
    · intro h
      obtain ⟨parts, ⟨h, rfl⟩, rfl⟩ := h
      exact ⟨⟨_, parts, rfl, hne, h, rfl⟩, by rw [keys_make]⟩
    · intro h
      obtain ⟨⟨_, parts, rfl, -, h, rfl⟩, rfl⟩ := h
      exact ⟨parts, ⟨h, by rw [keys_make]⟩, rfl⟩

-- The readers call each other, so this is one induction over the nodes and the lists of nodes.
-- Comparisons hold keys and no nodes, which is why they have been dealt with above.
mutual

theorem gives_readNode_iff {m m' : Mentions} {f : Filter} : ∀ {members : List (String × Json)},
    (readNode c members).Gives m f m' ↔
      Spelled c (.object members) f ∧ m' = m.addKeys f.keys
  | [] => by simp [readNode, spelled_iff]
  | [(token, operand)] => by
      simp only [readNode, readMember]
      cases hop : Operator.ofToken? token with
      | none =>
          have hunknown : ∀ op : Operator, token ≠ op.token := fun op htoken => by
            simp [Operator.ofToken?_eq_some_iff.mpr htoken] at hop
          simp [spelled_iff, hunknown]
      | some op =>
          obtain rfl := Operator.ofToken?_eq_some_iff.mp hop
          -- No two operators have one token.
          have hsame : ∀ op' : Operator, op.token = op'.token → op = op' := fun op' htoken =>
            Option.some.inj (hop.symm.trans (Operator.ofToken?_eq_some_iff.mpr htoken))
          simp only [gives_readOperand_iff, spelled_iff, Json.object.injEq, List.cons.injEq,
            Prod.mk.injEq, and_true]
          constructor
          · intro h
            obtain ⟨h, rfl⟩ := h
            exact ⟨⟨op, operand, ⟨rfl, rfl⟩, h⟩, rfl⟩
          · intro h
            obtain ⟨⟨op', _, ⟨htoken, rfl⟩, h⟩, rfl⟩ := h
            exact ⟨hsame op' htoken ▸ h, rfl⟩
  | _ :: _ :: _ => by simp [readNode, spelled_iff]

theorem gives_readOperand_iff {m m' : Mentions} {op : Operator} {f : Filter} : ∀ {operand : Json},
    (readOperand c op operand).Gives m f m' ↔
      OperandSpelled c operand f op ∧ m' = m.addKeys f.keys
  | .array items => by
      cases op with
      | and =>
          rw [readOperand]
          exact gives_list_iff (fun _ => rfl) gives_readParts_iff
      | or =>
          rw [readOperand]
          exact gives_list_iff (fun _ => rfl) gives_readParts_iff
      | _ => exact gives_readOperand_of_shape_ne nofun
  | .object members => by
      cases op with
      | not =>
          simp only [readOperand, OperandSpelled, Reading.gives_map, gives_readNode_iff]
          constructor
          · intro h
            obtain ⟨part, ⟨h, rfl⟩, rfl⟩ := h
            exact ⟨⟨part, h, rfl⟩, rfl⟩
          · intro h
            obtain ⟨⟨part, h, rfl⟩, rfl⟩ := h
            exact ⟨part, ⟨h, rfl⟩, rfl⟩
      | is => simp only [readOperand, gives_readIs_iff]
      | compare => simp only [readOperand, gives_readCompare_iff]
      | _ => exact gives_readOperand_of_shape_ne nofun
  | .null => gives_readOperand_of_shape_ne (by cases op <;> nofun)
  | .bool _ => gives_readOperand_of_shape_ne (by cases op <;> nofun)
  | .number _ => gives_readOperand_of_shape_ne (by cases op <;> nofun)
  | .string _ => gives_readOperand_of_shape_ne (by cases op <;> nofun)

theorem gives_readParts_iff {m m' : Mentions} {op : Operator} {parts : List Filter} :
    ∀ {items : List Json},
    (readParts c op items).Gives m parts m' ↔
      SpelledParts c items parts ∧ m' = m.addKeys (keysAmong parts)
  | [] => by
      simp only [readParts, Reading.gives_pure]
      constructor
      · intro h
        obtain ⟨rfl, rfl⟩ := h
        exact ⟨.nil, rfl⟩
      · intro h
        obtain ⟨h, rfl⟩ := h
        cases h
        exact ⟨rfl, rfl⟩
  | item :: items => by
      simp only [readParts, Reading.gives_bind, Reading.gives_pure, gives_readPart_iff,
        gives_readParts_iff]
      constructor
      · intro h
        obtain ⟨part, _, ⟨hpart, rfl⟩, parts, _, ⟨hparts, rfl⟩, rfl, rfl⟩ := h
        exact ⟨.cons hpart hparts, by simp [keysAmong]⟩
      · intro h
        obtain ⟨h, rfl⟩ := h
        cases h with
        | cons hpart hparts =>
            exact ⟨_, _, ⟨hpart, rfl⟩, _, _, ⟨hparts, rfl⟩, rfl, by simp [keysAmong]⟩

theorem gives_readPart_iff {m m' : Mentions} {op : Operator} {f : Filter} : ∀ {item : Json},
    (readPart c op item).Gives m f m' ↔ Spelled c item f ∧ m' = m.addKeys f.keys
  | .object members => by
      simp only [readPart, gives_readNode_iff]
  | .array _ => by simp [readPart, spelled_iff]
  | .null => by simp [readPart, spelled_iff]
  | .bool _ => by simp [readPart, spelled_iff]
  | .number _ => by simp [readPart, spelled_iff]
  | .string _ => by simp [readPart, spelled_iff]

end

theorem gives_read_iff {node : Json} {f : Filter} :
    (read c node).Gives m f m' ↔ SpelledClause c node f ∧ m' = m.addKeys f.keys := by
  simp only [read, Reading.gives_bind, Reading.gives_lift, Json.expectObject_eq_ok_iff]
  constructor
  · intro h
    obtain ⟨members, _, ⟨rfl, rfl⟩, h⟩ := h
    split at h
    · next hempty =>
      obtain ⟨rfl, rfl⟩ := Reading.gives_pure.mp h
      obtain rfl := List.isEmpty_iff.mp hempty
      exact ⟨.all, rfl⟩
    · obtain ⟨hspelled, rfl⟩ := gives_readNode_iff.mp h
      exact ⟨.node hspelled, rfl⟩
  · intro h
    obtain ⟨h, rfl⟩ := h
    cases h with
    | all => exact ⟨[], m, ⟨rfl, rfl⟩, by simp [keys]⟩
    | node h =>
        obtain ⟨op, operand, rfl, hop⟩ := spelled_iff.mp h
        exact ⟨_, m, ⟨rfl, rfl⟩, gives_readNode_iff.mpr ⟨h, rfl⟩⟩

end Filter

end Campus
