import Campus.Query.Reader
import Campus.Proofs.Assoc
import Campus.Proofs.Filter.Reading
import Campus.Proofs.Grouping.Reading
import Campus.Proofs.Json.WellFormed

/-!
# What reading the options gives

`Options.gives_read_iff_perm`: the reader of the options clause accepts exactly the members that are
those of some options, whatever their order. Where the columns come from depends on the grouping
(`Options.ColumnsGiven`): they are mentioned with it, or else they are keys and mention themselves.
-/

namespace Campus

theorem Direction.ofToken?_eq_some_iff {token : String} {direction : Direction} :
    Direction.ofToken? token = some direction ↔ (token, direction) ∈ directionWords := by
  constructor
  · intro h
    obtain rfl : direction.token = token := by simpa using List.find?_some h
    cases direction <;> decide
  · intro h
    fin_cases h <;> decide

namespace Options

variable {c : Catalog} {m m' : Mentions}

/-! ### Lists of texts -/

theorem expectStrings_eq_ok_iff {place : String} {items : List Json} {texts : List String} :
    expectStrings place items = .ok texts ↔ items = texts.map .string := by
  induction items generalizing texts with
  | nil => simp [expectStrings, @eq_comm _ []]
  | cons item items ih =>
      simp only [expectStrings, bind_eq_ok_iff, Json.expectString_eq_ok_iff, ih]
      constructor
      · intro h
        obtain ⟨text, rfl, texts, rfl, h⟩ := h
        cases h
        rfl
      · intro h
        cases texts with
        | nil => simp at h
        | cons text texts =>
            simp only [List.map_cons, List.cons.injEq] at h
            exact ⟨text, h.1, texts, h.2, rfl⟩

theorem expectNames_eq_ok_iff {place : String} {node : Json} {names : List String} :
    expectNames place node = .ok names ↔ node = .array (names.map .string) ∧ names ≠ [] := by
  simp only [expectNames, bind_eq_ok_iff, Json.expectArray_eq_ok_iff]
  constructor
  · intro h
    obtain ⟨items, rfl, h⟩ := h
    split at h
    · simp at h
    · next hne =>
      obtain rfl := expectStrings_eq_ok_iff.mp h
      exact ⟨rfl, by simpa using hne⟩
  · intro h
    obtain ⟨rfl, hne⟩ := h
    exact ⟨_, rfl, by simp [hne, expectStrings_eq_ok_iff]⟩

/-! ### Orders -/

theorem expectColumn_eq_ok_iff {columns : List String} {key : String} {u : Unit} :
    expectColumn columns key = .ok u ↔ key ∈ columns := by
  unfold expectColumn
  split <;> simp [*]

theorem expectColumns_eq_ok_iff {columns keys : List String} {u : Unit} :
    expectColumns columns keys = .ok u ↔ ∀ key ∈ keys, key ∈ columns := by
  induction keys with
  | nil => simp [expectColumns]
  | cons key keys ih => simp [expectColumns, bind_eq_ok_iff, expectColumn_eq_ok_iff, ih]

theorem expectDirection_eq_ok_iff {node : Json} {direction : Direction} :
    expectDirection node = .ok direction ↔
      ∃ word, node = .string word ∧ (word, direction) ∈ directionWords := by
  cases node with
  | string word =>
      simp only [expectDirection, Json.string.injEq, exists_eq_left',
        ← Direction.ofToken?_eq_some_iff]
      cases Direction.ofToken? word <;> simp
  | _ => simp [expectDirection]

theorem readOrder_eq_ok_iff {columns : List String} {node : Json} {order : Order} :
    readOrder columns node = .ok order ↔ order.Spelled columns node := by
  constructor
  · intro h
    cases node with
    | string column =>
        simp only [readOrder, bind_eq_ok_iff, expectColumn_eq_ok_iff] at h
        obtain ⟨_, hcolumn, h⟩ := h
        cases h
        exact .column hcolumn
    | object members =>
        simp only [readOrder] at h
        split at h
        · next directionNode keysNode hdir hkeys =>
          split at h
          · next hlength =>
            simp only [bind_eq_ok_iff, expectDirection_eq_ok_iff, expectNames_eq_ok_iff,
              expectColumns_eq_ok_iff] at h
            obtain ⟨direction, ⟨word, rfl, hword⟩, names, ⟨rfl, hne⟩, _, hshown, h⟩ := h
            cases h
            exact .keys ((Assoc.perm_pair_iff (by decide)).mpr ⟨hlength, hdir, hkeys⟩) hword hne
              hshown
          · cases h
        · cases h
    | _ => cases h
  · intro h
    cases h with
    | column shown =>
        simp only [readOrder, bind_eq_ok_iff, expectColumn_eq_ok_iff]
        exact ⟨(), shown, rfl⟩
    | @keys members word direction names exactly known nonempty shown =>
        obtain ⟨hlength, hdir, hkeys⟩ := (Assoc.perm_pair_iff (by decide)).mp exactly
        simp only [readOrder, Json.member?, directionMember, keysMember, hdir, hkeys, hlength,
          if_true, bind_eq_ok_iff, expectDirection_eq_ok_iff, expectNames_eq_ok_iff,
          expectColumns_eq_ok_iff]
        exact ⟨direction, ⟨word, rfl, known⟩, names, ⟨rfl, nonempty⟩, (), shown, rfl⟩

/-! ### Columns -/

theorem gives_expectGrouped_iff {columns : List String} {u : Unit} :
    (expectGrouped columns).Gives m u m' ↔
      (∀ column ∈ columns, m.hasColumn column = true) ∧ m' = m := by
  induction columns with
  | nil => simp [expectGrouped]
  | cons column columns ih =>
      simp only [expectGrouped, Reading.gives_bind, Reading.gives_get, List.forall_mem_cons]
      constructor
      · intro h
        obtain ⟨_, _, ⟨rfl, rfl⟩, h⟩ := h
        split at h
        · next hcolumn =>
          obtain ⟨hcolumns, rfl⟩ := ih.mp h
          exact ⟨⟨hcolumn, hcolumns⟩, rfl⟩
        · simp at h
      · intro h
        obtain ⟨⟨hcolumn, hcolumns⟩, rfl⟩ := h
        refine ⟨_, _, ⟨rfl, rfl⟩, ?_⟩
        rw [if_pos hcolumn]
        exact ih.mpr ⟨hcolumns, rfl⟩

theorem gives_readColumnKeys_iff {columns : List String} {u : Unit} :
    (readColumnKeys c columns).Gives m u m' ↔
      ∃ keys : List Key, columns = keys.map Key.text ∧ (∀ key ∈ keys, c.Admits .any key) ∧
        m' = m.addKeys keys := by
  induction columns generalizing m m' with
  | nil =>
      simp only [readColumnKeys, Reading.gives_pure, true_and]
      constructor
      · rintro rfl
        exact ⟨[], rfl, by simp, rfl⟩
      · intro h
        obtain ⟨keys, hkeys, -, rfl⟩ := h
        obtain rfl : keys = [] := by simpa using hkeys.symm
        rfl
  | cons column columns ih =>
      simp only [readColumnKeys]
      constructor
      · intro h
        split at h
        · simp at h
        · next key hkey =>
          obtain ⟨rfl, hadmits⟩ := Catalog.resolve?_eq_some_iff.mp hkey
          simp only [Reading.gives_bind, Reading.gives_mention, ih] at h
          obtain ⟨_, _, rfl, keys, rfl, hkeys, rfl⟩ := h
          exact ⟨key :: keys, rfl, List.forall_mem_cons.mpr ⟨hadmits, hkeys⟩, rfl⟩
      · intro h
        obtain ⟨_ | ⟨key, keys⟩, hcolumns, hkeys, rfl⟩ := h
        · simp at hcolumns
        · simp only [List.map_cons, List.cons.injEq] at hcolumns
          obtain ⟨rfl, rfl⟩ := hcolumns
          simp only [List.forall_mem_cons] at hkeys
          simp only [Catalog.resolve?_eq_some_iff.mpr ⟨rfl, hkeys.1⟩, Reading.gives_bind,
            Reading.gives_mention, ih]
          exact ⟨(), _, rfl, keys, rfl, hkeys.2, rfl⟩

/-! ### The clause -/

/-- Where columns come from: from what is mentioned, or from keys that are mentioned with them. -/
def ColumnsGiven (c : Catalog) (grouped : Bool) (m : Mentions) (columns : List String)
    (m' : Mentions) : Prop :=
  if grouped then (∀ column ∈ columns, m.hasColumn column = true) ∧ m' = m
  else ∃ keys : List Key, columns = keys.map Key.text ∧ (∀ key ∈ keys, c.Admits .any key) ∧
    m' = m.addKeys keys

theorem names_optionMembers (columns : List String) (order : Option Json) :
    Assoc.names (Query.optionMembers columns order) =
      "COLUMNS" :: (order.map fun _ => "ORDER").toList := by
  cases order <;> rfl

/-- Without repeated names, the options are their members if there is no further one. -/
theorem perm_optionMembers_iff {members : List (String × Json)}
    (hnames : (Assoc.names members).Nodup) {columns : List String} {order : Option Json} :
    members.Perm (Query.optionMembers columns order) ↔
      members.find? (fun member => !(member.1 = columnsMember || member.1 = orderMember)) = none ∧
        Json.member? members columnsMember = some (.array (columns.map .string)) ∧
        Json.member? members orderMember = order := by
  have hnodup : (Assoc.names (Query.optionMembers columns order)).Nodup := by
    cases order <;> simp [names_optionMembers]
  have hknown : ∀ name ∈ Assoc.names (Query.optionMembers columns order),
      name ∈ ["COLUMNS", "ORDER"] := by
    cases order <;> simp [names_optionMembers]
  have hcolumns : (Query.optionMembers columns order).lookup "COLUMNS" =
      some (.array (columns.map .string)) := rfl
  have horder : (Query.optionMembers columns order).lookup "ORDER" = order := by
    cases order <;> rfl
  have hfind : members.find? (fun member =>
        !(member.1 = columnsMember || member.1 = orderMember)) = none ↔
      ∀ name ∈ Assoc.names members, name ∈ ["COLUMNS", "ORDER"] := by
    simp only [Assoc.names, List.find?_eq_none, List.mem_map, List.mem_cons, List.not_mem_nil,
      or_false, forall_exists_index, and_imp, forall_apply_eq_imp_iff₂, Bool.not_eq_true,
      Bool.not_eq_false', Bool.or_eq_true, decide_eq_true_eq]
    rfl
  rw [Assoc.perm_iff_of_known hnames hnodup hknown, hfind]
  simp [Json.member?, columnsMember, orderMember, hcolumns, horder]

theorem gives_ordered_iff {columns : List String} {order? : Option Json} {o : Options} :
    (match order? with
      | none => (pure ⟨columns, none⟩ : Reading Options)
      | some node => do
        let order ← readOrder columns node
        pure ⟨columns, some order⟩).Gives m o m' ↔
      o.columns = columns ∧ Option.Rel (Order.Spelled columns) order? o.order ∧ m' = m := by
  obtain ⟨shown, order⟩ := o
  cases order? with
  | none => cases order <;> simp
  | some node =>
      simp only [Reading.gives_bind, Reading.gives_lift, Reading.gives_pure, mk.injEq,
        readOrder_eq_ok_iff]
      constructor
      · intro h
        obtain ⟨found, _, ⟨hfound, rfl⟩, ⟨rfl, rfl⟩, rfl⟩ := h
        exact ⟨rfl, .some hfound, rfl⟩
      · intro h
        obtain ⟨rfl, hrel, rfl⟩ := h
        cases hrel with
        | some hfound => exact ⟨_, _, ⟨hfound, rfl⟩, ⟨rfl, rfl⟩, rfl⟩

/-- What the options give, with and without an order. -/
theorem gives_read_iff {grouped : Bool} {members : List (String × Json)} {o : Options} :
    (read c grouped members).Gives m o m' ↔
      members.find? (fun member => !(member.1 = columnsMember || member.1 = orderMember)) = none ∧
        Json.member? members columnsMember = some (.array (o.columns.map .string)) ∧
        o.columns ≠ [] ∧
        Option.Rel (Order.Spelled o.columns) (Json.member? members orderMember) o.order ∧
        ColumnsGiven c grouped m o.columns m' := by
  simp only [read]
  cases members.find? fun member => !(member.1 = columnsMember || member.1 = orderMember) with
  | some _ => simp
  | none =>
  cases hcolumns : Json.member? members columnsMember with
  | none => simp
  | some node =>
      simp only [Reading.gives_bind, Reading.gives_lift, expectNames_eq_ok_iff, true_and,
        Option.some.injEq]
      constructor
      · intro h
        obtain ⟨columns, m, ⟨⟨rfl, hne⟩, rfl⟩, h⟩ := h
        -- With and without a grouping, the columns are read before the order.
        have hparts : ∃ between : Mentions, ColumnsGiven c grouped m columns between ∧
            o.columns = columns ∧
              Option.Rel (Order.Spelled columns) (Json.member? members orderMember) o.order ∧
              m' = between := by
          cases grouped with
          | true =>
              simp only [if_true, Reading.gives_bind, gives_expectGrouped_iff] at h
              obtain ⟨_, between, hgiven, h⟩ := h
              exact ⟨between, hgiven, gives_ordered_iff.mp h⟩
          | false =>
              simp only [Bool.false_eq_true, if_false, Reading.gives_bind,
                gives_readColumnKeys_iff] at h
              obtain ⟨_, between, hgiven, h⟩ := h
              exact ⟨between, hgiven, gives_ordered_iff.mp h⟩
        obtain ⟨_, hgiven, rfl, horder, rfl⟩ := hparts
        exact ⟨rfl, hne, horder, hgiven⟩
      · intro h
        obtain ⟨rfl, hne, horder, hgiven⟩ := h
        refine ⟨_, _, ⟨⟨rfl, hne⟩, rfl⟩, ?_⟩
        cases grouped with
        | true =>
            simp only [if_true, Reading.gives_bind, gives_expectGrouped_iff]
            exact ⟨(), m', hgiven, gives_ordered_iff.mpr ⟨rfl, horder, rfl⟩⟩
        | false =>
            simp only [Bool.false_eq_true, if_false, Reading.gives_bind, gives_readColumnKeys_iff]
            exact ⟨(), m', hgiven, gives_ordered_iff.mpr ⟨rfl, horder, rfl⟩⟩

theorem gives_read_iff_perm {grouped : Bool} {members : List (String × Json)} {o : Options}
    (hnames : (Assoc.names members).Nodup) :
    (read c grouped members).Gives m o m' ↔
      ∃ orderNode, members.Perm (Query.optionMembers o.columns orderNode) ∧ o.columns ≠ [] ∧
        Option.Rel (Order.Spelled o.columns) orderNode o.order ∧
        ColumnsGiven c grouped m o.columns m' := by
  simp only [gives_read_iff, perm_optionMembers_iff hnames]
  constructor
  · intro h
    obtain ⟨hunknown, hcolumns, h⟩ := h
    exact ⟨_, ⟨hunknown, hcolumns, rfl⟩, h⟩
  · intro h
    obtain ⟨_, ⟨hunknown, hcolumns, rfl⟩, h⟩ := h
    exact ⟨hunknown, hcolumns, h⟩

end Options

end Campus
