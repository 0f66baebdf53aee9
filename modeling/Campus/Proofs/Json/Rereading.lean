import Campus.Json.Reader
import Campus.Proofs.Assoc
import Campus.Proofs.Json.Building
import Campus.Proofs.Json.Cutting
import Campus.Proofs.Json.WellFormed

/-!
# Values that are written and read again

The text of a value is the text of one tree (`Json.written`), and the tree denotes the value again:
no member takes the place of another, and every number is read as itself. Reading has a limit on the
nesting and writing has none, so whether the value comes back is a matter of its depth alone.

* `ofChars?_print` — a text is built into the tree of its value.
* `readWithin?_toText` — what a text is read as.

Whatever text a value is read from, its numbers are numbers that a text can denote
(`numbersFit_of_read?`).
-/

namespace Campus.Json

open Campus.Number (Dyadic Numeral Scientific)

/-! ### The tree of a value -/

/-- A number as a tree. -/
def Num.written : Num → Written
  | .integer n => .number (.ofInt n)
  | .real x =>
    match Scientific.ofFloat? .even x with
    | some s => .number (.ofScientific s)
    | none => .null

mutual

/-- The tree of a value. -/
def written : Json → Written
  | .null => .null
  | .bool b => .bool b
  | .number n => n.written
  | .string s => .string (s.toList.map glyph)
  | .array items => .array (writtenItems items)
  | .object members => .object (writtenMembers members)

/-- The trees of items. -/
def writtenItems : List Json → List Written
  | [] => []
  | item :: items => item.written :: writtenItems items

/-- The trees of members. -/
def writtenMembers : List (String × Json) → List (List Glyph × Written)
  | [] => []
  | (name, value) :: members => (name.toList.map glyph, value.written) :: writtenMembers members

end

theorem Num.spells_print (n : Num) : Spells n.print n.written.tokens := by
  cases n with
  | integer n =>
      simp only [Num.print, Num.written, Numeral.printInt_eq_chars]
      exact spells_chars (Numeral.wellFormed_ofInt n) (Numeral.isStrict_ofInt n)
  | real x =>
      simp only [Num.print, Num.written]
      cases Scientific.ofFloat? .even x with
      | none => exact spells_word rfl
      | some s =>
          simp only [Numeral.printScientific_eq_chars]
          exact spells_chars (Numeral.wellFormed_ofScientific s) (Numeral.isStrict_ofScientific s)

mutual

theorem spells_print : ∀ v : Json, Spells v.print v.written.tokens
  | .null => spells_word rfl
  | .bool true => spells_word rfl
  | .bool false => spells_word rfl
  | .number n => n.spells_print
  | .string s => spells_printString s
  | .array items => .cons rfl (spells_printItems items)
  | .object members => .cons rfl (spells_printMembers members)

theorem spells_printItems :
    ∀ items : List Json, Spells (printItems items) (Written.tokensOfItems (writtenItems items))
  | [] => .cons rfl .nil
  | [item] => (spells_print item).append rfl .nil
  | item :: next :: items => (spells_print item).append rfl (spells_printItems (next :: items))

theorem spells_printMembers : ∀ members : List (String × Json),
    Spells (printMembers members) (Written.tokensOfMembers (writtenMembers members))
  | [] => .cons rfl .nil
  | [(name, value)] =>
      (spells_printString name).append rfl ((spells_print value).append rfl .nil)
  | (name, value) :: next :: members =>
      (spells_printString name).append rfl
        ((spells_print value).append rfl (spells_printMembers (next :: members)))

end

/-- A text is built into the tree of its value. -/
theorem ofChars?_print (v : Json) : Written.ofChars? v.print = some v.written := by
  simp [Written.ofChars?, tokens?_of_spells (spells_print v), Written.ofTokens?_tokens]

/-! ### Strings -/

/-- The code of a character is no half of a pair, so it stands alone. -/
theorem decodeGlyphs?_unicode (c : Char) (rest : List Glyph) :
    decodeGlyphs? (.unicode c.toNat :: rest) = (decodeGlyphs? rest).map (c :: ·) := by
  have hvalid : c.toNat < 0xD800 ∨ 0xDFFF < c.toNat := c.valid.imp id And.left
  have hhigh : isHighHalf c.toNat = false := by
    simp [isHighHalf]
    omega
  have hlow : isLowHalf c.toNat = false := by
    simp [isLowHalf]
    omega
  match rest with
  | [] => simp [decodeGlyphs?, hhigh, hlow]
  | .unicode low :: rest => simp [decodeGlyphs?, hhigh, hlow]
  | .plain d :: rest => simp [decodeGlyphs?, hhigh, hlow, Function.comp_def]

/-- Every character comes back if it is written as itself or by its code. -/
theorem decodeGlyphs?_map {glyph : Char → Glyph}
    (h : ∀ c, glyph c = .plain c ∨ glyph c = .unicode c.toNat) (cs : List Char) :
    decodeGlyphs? (cs.map glyph) = some cs := by
  induction cs with
  | nil => rfl
  | cons c cs ih =>
      rcases h c with hc | hc
      · rw [List.map_cons, hc, decodeGlyphs?, ih, Option.map_some]
      · rw [List.map_cons, hc, decodeGlyphs?_unicode, ih, Option.map_some]

theorem textOf?_map {glyph : Char → Glyph}
    (h : ∀ c, glyph c = .plain c ∨ glyph c = .unicode c.toNat) (s : String) :
    textOf? (s.toList.map glyph) = some s := by
  simp [textOf?, decodeGlyphs?_map h]

theorem textOf?_map_glyph (s : String) : textOf? (s.toList.map glyph) = some s := by
  refine textOf?_map (fun c => ?_) s
  unfold glyph
  split
  · exact .inr rfl
  · exact .inl rfl

/-! ### The value that comes back -/

theorem Num.ofNumeral?_ofInt {n : Int} (h : Num.fits n = true) :
    Num.ofNumeral? (.ofInt n) = some (.integer n) := by
  have hvalue : (if decide (n < 0) = true then -(n.natAbs : Int) else n.natAbs) = n := by
    simp only [decide_eq_true_eq]
    split <;> omega
  have hzero : (decide (n < 0) && decide (n.natAbs = 0)) = false := by
    simp only [Bool.and_eq_false_iff, decide_eq_false_iff_not]
    omega
  have hwhole : (Numeral.ofInt n).isWhole = true := rfl
  simp only [Num.ofNumeral?, Numeral.toScientific_ofInt, hvalue, hzero, hwhole, h]
  rfl

theorem Num.toJson?_written {n : Num} (h : n.Fits) : n.written.toJson? = some (.number n) := by
  cases n with
  | integer n => simp [Num.written, Written.toJson?, Num.ofNumeral?_ofInt h]
  | real x =>
      have hfinite : x.isFinite = true := h
      obtain ⟨d, hd⟩ := Option.isSome_iff_exists.mp (Dyadic.isSome_ofFloat?_iff.mpr hfinite)
      have hs : Scientific.ofFloat? .even x = some _ := Option.map_eq_some_iff.mpr ⟨d, hd, rfl⟩
      simp [Num.written, hs, Written.toJson?, Num.ofNumeral?, Numeral.isWhole_ofScientific,
        Numeral.toFloat_ofScientific hs, hfinite]

mutual

theorem toJson?_written :
    ∀ {v : Json}, v.DistinctNames → v.NumbersFit → v.written.toJson? = some v
  | .null, _, _ => rfl
  | .bool _, _, _ => rfl
  | .number _, _, hfit => Num.toJson?_written hfit
  | .string s, _, _ => by simp [written, Written.toJson?, textOf?_map_glyph]
  | .array items, hnames, hfit => by
      simp [written, Written.toJson?, toItems?_writtenItems hnames hfit]
  | .object members, hnames, hfit => by
      -- The names stay as they are, so no member takes the place of another.
      have hnodup : (Assoc.names ([] ++ members)).Nodup := hnames.1
      simp [written, Written.toJson?, toMembers?_writtenMembers [] hnames.2 hfit,
        Assoc.putAll_eq_append hnodup]

theorem toItems?_writtenItems : ∀ {items : List Json}, DistinctNamesItems items →
    NumbersFitItems items → Written.toItems? (writtenItems items) = some items
  | [], _, _ => rfl
  | item :: items, hnames, hfit => by
      simp [writtenItems, Written.toItems?, toJson?_written hnames.1 hfit.1,
        toItems?_writtenItems hnames.2 hfit.2]

theorem toMembers?_writtenMembers (done : List (String × Json)) :
    ∀ {members : List (String × Json)}, DistinctNamesMembers members → NumbersFitMembers members →
      Written.toMembers? done (writtenMembers members) = some (Assoc.putAll done members)
  | [], _, _ => rfl
  | (name, value) :: members, hnames, hfit => by
      simp [writtenMembers, Written.toMembers?, textOf?_map_glyph,
        toJson?_written hnames.1 hfit.1, toMembers?_writtenMembers _ hnames.2 hfit.2,
        Assoc.putAll]

end

/-! ### Numbers that are read -/

/-- A numeral is read as an integer only if it fits, and as a double only if it is finite. -/
theorem Num.fits_of_ofNumeral? {n : Numeral} {num : Num} (h : Num.ofNumeral? n = some num) :
    num.Fits := by
  unfold Num.ofNumeral? at h
  dsimp only at h
  generalize (if n.toScientific.negative = true then -(n.toScientific.digits : Int)
    else n.toScientific.digits) = value at h
  split at h
  · next hwhole =>
    obtain rfl := Option.some.inj h
    rw [Bool.and_eq_true, Bool.and_eq_true] at hwhole
    exact hwhole.1.2
  · rw [Option.ite_none_right_eq_some] at h
    obtain ⟨hfinite, h⟩ := h
    obtain rfl := Option.some.inj h
    exact hfinite

mutual

theorem numbersFit_of_toJson? : ∀ {w : Written} {v : Json}, w.toJson? = some v → v.NumbersFit
  | .null, v, h => by
      obtain rfl := Option.some.inj h
      trivial
  | .bool b, v, h => by
      obtain rfl := Option.some.inj h
      trivial
  | .number n, v, h => by
      obtain ⟨num, hnum, rfl⟩ := Option.map_eq_some_iff.mp h
      exact Num.fits_of_ofNumeral? hnum
  | .string glyphs, v, h => by
      obtain ⟨s, -, rfl⟩ := Option.map_eq_some_iff.mp h
      trivial
  | .array items, v, h => by
      obtain ⟨values, hvalues, rfl⟩ := Option.map_eq_some_iff.mp h
      exact numbersFitItems_of_toItems? hvalues
  | .object members, v, h => by
      obtain ⟨values, hvalues, rfl⟩ := Option.map_eq_some_iff.mp h
      have hnone : NumbersFitMembers [] := trivial
      exact numbersFitMembers_of_toMembers? hnone hvalues

theorem numbersFitItems_of_toItems? : ∀ {items : List Written} {values : List Json},
    Written.toItems? items = some values → NumbersFitItems values
  | [], values, h => by
      obtain rfl := Option.some.inj h
      trivial
  | item :: items, values, h => by
      obtain ⟨value, hvalue, h⟩ := Option.bind_eq_some_iff.mp h
      obtain ⟨others, hothers, rfl⟩ := Option.map_eq_some_iff.mp h
      exact ⟨numbersFit_of_toJson? hvalue, numbersFitItems_of_toItems? hothers⟩

theorem numbersFitMembers_of_toMembers? : ∀ {members : List (List Glyph × Written)}
    {done values : List (String × Json)}, NumbersFitMembers done →
      Written.toMembers? done members = some values → NumbersFitMembers values
  | [], done, values, hdone, h => by
      obtain rfl := Option.some.inj h
      exact hdone
  | (glyphs, w) :: members, done, values, hdone, h => by
      obtain ⟨name, -, h⟩ := Option.bind_eq_some_iff.mp h
      obtain ⟨value, hvalue, h⟩ := Option.bind_eq_some_iff.mp h
      refine numbersFitMembers_of_toMembers? ?_ h
      rw [numbersFitMembers_iff] at hdone ⊢
      intro member hmember
      rcases List.mem_cons.mp ((Assoc.put_perm name value done).mem_iff.mp hmember) with
        rfl | hmember
      · exact numbersFit_of_toJson? hvalue
      · exact hdone member (List.eraseP_subset hmember)

end

/-- The numbers of a value that was read from a text are numbers that a text can denote. -/
theorem numbersFit_of_read? {text : String} {v : Json} (h : read? text = some v) :
    v.NumbersFit := by
  obtain ⟨w, -, h⟩ := Option.bind_eq_some_iff.mp h
  rw [Option.ite_none_right_eq_some] at h
  exact numbersFit_of_toJson? h.2

/-! ### Depth -/

mutual

/-- How many arrays and objects lie around the deepest place of a value. -/
def depth : Json → Nat
  | .array items => depthOfItems items + 1
  | .object members => depthOfMembers members + 1
  | _ => 0

/-- The depth of the deepest item. -/
def depthOfItems : List Json → Nat
  | [] => 0
  | item :: items => max item.depth (depthOfItems items)

/-- The depth of the deepest member. -/
def depthOfMembers : List (String × Json) → Nat
  | [] => 0
  | (_, value) :: members => max value.depth (depthOfMembers members)

end

mutual

theorem depth_written : ∀ v : Json, v.written.depth = v.depth
  | .null => rfl
  | .bool _ => rfl
  | .number (.integer _) => rfl
  | .number (.real x) => by
      simp only [written, Num.written, depth]
      split <;> rfl
  | .string _ => rfl
  | .array items => by rw [written, Written.depth, depthOfItems_written items, depth]
  | .object members => by rw [written, Written.depth, depthOfMembers_written members, depth]

theorem depthOfItems_written :
    ∀ items : List Json, Written.depthOfItems (writtenItems items) = depthOfItems items
  | [] => rfl
  | item :: items => by
      rw [writtenItems, Written.depthOfItems, depth_written item, depthOfItems_written items,
        depthOfItems]

theorem depthOfMembers_written : ∀ members : List (String × Json),
    Written.depthOfMembers (writtenMembers members) = depthOfMembers members
  | [] => rfl
  | (_, value) :: members => by
      rw [writtenMembers, Written.depthOfMembers, depth_written value,
        depthOfMembers_written members, depthOfMembers]

end

theorem depthOfItems_le_iff {items : List Json} {n : Nat} :
    depthOfItems items ≤ n ↔ ∀ item ∈ items, item.depth ≤ n := by
  induction items with
  | nil => simp [depthOfItems]
  | cons item items ih => rw [depthOfItems, Nat.max_le, ih, List.forall_mem_cons]

theorem depthOfMembers_le_iff {members : List (String × Json)} {n : Nat} :
    depthOfMembers members ≤ n ↔ ∀ member ∈ members, member.2.depth ≤ n := by
  induction members with
  | nil => simp [depthOfMembers]
  | cons member members ih =>
      obtain ⟨name, value⟩ := member
      rw [depthOfMembers, Nat.max_le, ih, List.forall_mem_cons]

/-- A value comes back from its text unless the text nests too deeply. -/
theorem readWithin?_toText {v : Json} (hnames : v.DistinctNames) (hfit : v.NumbersFit)
    (limit : Nat) :
    readWithin? limit v.toText = if v.depth ≤ limit then some v else none := by
  simp [readWithin?, toText, ofChars?_print, depth_written, toJson?_written hnames hfit]

end Campus.Json
