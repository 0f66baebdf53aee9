import Campus.Proofs.Key
import Campus.Proofs.Pattern
import Campus.Query

/-!
# The grammar of queries

Which JSON values spell which queries, said without a reader: each relation has one case for each
form that a clause can take, and the members of an object may stand in any order. The three
tables hold the words of the grammar.

* `Filter.Spelled` — a node of the `WHERE` tree, `Filter.SpelledClause` the clause around it;
* `Grouping.Spelled` and `ApplyRule.Spelled` — the `TRANSFORMATIONS` clause and its rules;
* `Order.Spelled` — the `ORDER` of the `OPTIONS`, by columns that the query shows;
* `Query.Spelled` — a whole query, all of whose keys name one dataset.

`Query.InGrammar` holds of the values that spell some query.
-/

namespace Campus

/-! ### Words -/

/-- The words for comparisons. -/
def comparisonWords : List (String × Comparison) :=
  [("EQ", .equal), ("GT", .greater), ("LT", .less)]

/-- The words for aggregates. -/
def aggregateWords : List (String × Aggregate) :=
  [("MAX", .max), ("MIN", .min), ("AVG", .avg), ("SUM", .sum), ("COUNT", .count)]

/-- The words for directions. -/
def directionWords : List (String × Direction) := [("UP", .up), ("DOWN", .down)]

/-! ### Filters -/

namespace Filter

mutual

/-- The keys of a filter from left to right. -/
def keys : Filter → List Key
  | .all => []
  | .and parts => keysAmong parts
  | .or parts => keysAmong parts
  | .not part => part.keys
  | .compare _ key _ => [key]
  | .is key _ => [key]

/-- The keys of some filters from left to right. -/
def keysAmong : List Filter → List Key
  | [] => []
  | part :: parts => part.keys ++ keysAmong parts

end

mutual

/-- Which filter a node spells. A node is an object with one member. -/
inductive Spelled (c : Catalog) : Json → Filter → Prop
  | and {items : List Json} {parts : List Filter} (nonempty : items ≠ [])
      (each : SpelledParts c items parts) :
      Spelled c (.object [("AND", .array items)]) (.and parts)
  | or {items : List Json} {parts : List Filter} (nonempty : items ≠ [])
      (each : SpelledParts c items parts) :
      Spelled c (.object [("OR", .array items)]) (.or parts)
  | not {node : Json} {part : Filter} (inner : Spelled c node part) :
      Spelled c (.object [("NOT", node)]) (.not part)
  | compare {word : String} {op : Comparison} {key : Key} {n : Json.Num}
      (known : (word, op) ∈ comparisonWords) (admitted : c.Admits .numeric key) :
      Spelled c (.object [(word, .object [(key.text, .number n)])]) (.compare op key n.toFloat)
  | is {key : Key} {text : String} {pattern : Pattern}
      (admitted : c.Admits .text key) (pattern_spelled : pattern.Spells text) :
      Spelled c (.object [("IS", .object [(key.text, .string text)])]) (.is key pattern)

/-- `Spelled` for the items of an array, one after the other. -/
inductive SpelledParts (c : Catalog) : List Json → List Filter → Prop
  | nil : SpelledParts c [] []
  | cons {item : Json} {items : List Json} {part : Filter} {parts : List Filter}
      (first : Spelled c item part) (others : SpelledParts c items parts) :
      SpelledParts c (item :: items) (part :: parts)

end

/-- Which filter the clause spells: a node, or the empty object for the filter of all records. -/
inductive SpelledClause (c : Catalog) : Json → Filter → Prop
  | all : SpelledClause c (.object []) .all
  | node {node : Json} {f : Filter} (h : Spelled c node f) : SpelledClause c node f

end Filter

/-! ### Groupings -/

/-- Which rule an item of `APPLY` spells. Only `COUNT` takes a key of any class. -/
inductive ApplyRule.Spelled (c : Catalog) : Json → ApplyRule → Prop
  | rule {name word : String} {aggregate : Aggregate} {key : Key}
      (known : (word, aggregate) ∈ aggregateWords)
      (admitted : c.Admits (if aggregate = .count then .any else .numeric) key) :
      Spelled c (.object [(name, .object [(word, .string key.text)])]) ⟨name, aggregate, key⟩

/-- Which grouping the clause spells. Repetitions among the keys of `GROUP` are dropped. -/
inductive Grouping.Spelled (c : Catalog) : Json → Grouping → Prop
  | clause {members : List (String × Json)} {keys : List Key} {items : List Json}
      {rules : List ApplyRule}
      (exactly : members.Perm
        [("GROUP", .array (keys.map fun key => .string key.text)), ("APPLY", .array items)])
      (nonempty : keys ≠ []) (admitted : ∀ key ∈ keys, c.Admits .any key)
      (each : List.Forall₂ (ApplyRule.Spelled c) items rules) :
      Spelled c (.object members) ⟨keys.eraseDups, rules⟩

/-- The keys of a grouping: those of the groups and then those of the rules. -/
def Grouping.allKeys (g : Grouping) : List Key := g.keys ++ g.rules.map (·.key)

/-- The columns that groups have. -/
def Grouping.columns (g : Grouping) : List String := g.keys.map Key.text ++ g.rules.map (·.name)

/-! ### Queries -/

/-- Which order a value spells, given the columns. -/
inductive Order.Spelled (columns : List String) : Json → Order → Prop
  | column {name : String} (shown : name ∈ columns) : Spelled columns (.string name) (.column name)
  | keys {members : List (String × Json)} {word : String} {direction : Direction}
      {names : List String}
      (exactly : members.Perm [("dir", .string word), ("keys", .array (names.map .string))])
      (known : (word, direction) ∈ directionWords) (nonempty : names ≠ [])
      (shown : ∀ name ∈ names, name ∈ columns) :
      Spelled columns (.object members) (.keys direction names)

/-- A column that a query may show: one that the groups have, or without a grouping the text of a
key of the dataset. -/
def IsColumn (c : Catalog) (dataset : String) (grouping : Option Grouping) (column : String) :
    Prop :=
  match grouping with
  | some g => column ∈ g.columns
  | none => ∃ key, c.Admits .any key ∧ key.dataset = dataset ∧ column = key.text

namespace Query

/-- The members that hold the clauses of a query. -/
def clauseMembers (filter options : Json) (grouping : Option Json) : List (String × Json) :=
  ("WHERE", filter) :: ("OPTIONS", options) :: (grouping.map ("TRANSFORMATIONS", ·)).toList

/-- The members that hold the options of a query. -/
def optionMembers (columns : List String) (order : Option Json) : List (String × Json) :=
  ("COLUMNS", .array (columns.map .string)) :: (order.map ("ORDER", ·)).toList

/-- Which query a value spells. -/
inductive Spelled (c : Catalog) : Json → Query → Prop
  | query {members options : List (String × Json)} {filterNode : Json}
      {groupingNode orderNode : Option Json} {q : Query}
      (exactly : members.Perm (clauseMembers filterNode (.object options) groupingNode))
      (exactly_options : options.Perm (optionMembers q.columns orderNode))
      (filter : Filter.SpelledClause c filterNode q.filter)
      (grouping : Option.Rel (Grouping.Spelled c) groupingNode q.grouping)
      (columns : ∀ column ∈ q.columns, IsColumn c q.dataset q.grouping column)
      (nonempty : q.columns ≠ [])
      (order : Option.Rel (Order.Spelled q.columns) orderNode q.order)
      (filter_dataset : ∀ key ∈ q.filter.keys, key.dataset = q.dataset)
      (grouping_dataset : ∀ g ∈ q.grouping, ∀ key ∈ g.allKeys, key.dataset = q.dataset) :
      Spelled c (.object members) q

/-- The values that spell a query. -/
def InGrammar (c : Catalog) (value : Json) : Prop := ∃ q, Spelled c value q

end Query

end Campus
