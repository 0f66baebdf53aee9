import Campus.Proofs.Request.Serving

/-!
# The text of some rows

Rows are read from the text of a response as they were (`Response.read?_ofRows`): an object for each
row, and in it a member for each cell, with the same name. A text comes back as it was and a number
as an equal one, which is written as an integer exactly if it is one that no other integer is
rounded to. All that it takes is that no name is in a row twice, as in rows that were built by
setting cells (`Row.Built`), and that the numbers are finite.
-/

namespace Campus

/-- The rows that come about by setting one cell after the other. -/
inductive Row.Built : Row → Prop
  | empty : Built .empty
  | set {r : Row} (built : Built r) (name : String) (value : Scalar) : Built (r.set name value)

theorem Row.Built.nodup_names {r : Row} (h : r.Built) : r.names.Nodup := by
  induction h with
  | empty => exact List.nodup_nil
  | set built name value ih => exact Assoc.nodup_names_put ih value

namespace Row

/-- A row is shown as an object with a member for each cell, in the same order. -/
def ShownAs (r : Row) (item : Json) : Prop :=
  ∃ members, item = .object members ∧
    List.Forall₂ (fun cell member => cell.1 = member.1 ∧ cell.2.ShownAs member.2) r.cells members

theorem shownAs_toJson {r : Row} (h : ∀ cell ∈ r.cells, cell.2.HasText) : r.ShownAs r.toJson := by
  refine ⟨_, rfl, ?_⟩
  rw [List.forall₂_map_right_iff, List.forall₂_same]
  intro cell hcell
  exact ⟨rfl, Scalar.shownAs_toJson (h cell hcell)⟩

end Row

/-- The text of a response with rows holds all that the rows hold, and no control characters. -/
theorem Response.read?_ofRows {rows : List Row} (hbuilt : ∀ row ∈ rows, row.Built)
    (htext : ∀ row ∈ rows, ∀ cell ∈ row.cells, cell.2.HasText) :
    (∃ items, Json.read? (ofRows rows).text =
        some (.object [("status", .string "ok"), ("data", .array items)]) ∧
      List.Forall₂ Row.ShownAs rows items) ∧
    ∀ c ∈ (ofRows rows).text.toList, 0x20 ≤ c.toNat := by
  refine ⟨⟨rows.map Row.toJson, ?_, ?_⟩, (ofRows rows).printed_text⟩
  · exact (readable_ofRows fun row hrow => (hbuilt row hrow).nodup_names).read?_text
  · rw [List.forall₂_map_right_iff, List.forall₂_same]
    intro row hrow
    exact Row.shownAs_toJson (htext row hrow)

/-- A row with a name and a text that have to be escaped, a negative zero, and an integer to which
the next one is rounded. -/
def sampleRow : Row :=
  ((Row.empty.set "a\nb" (.text "\"\\")).set "zero" (.number (-0))).set "large"
    (.number 9007199254740992)

/-- The row comes back. -/
theorem read?_sampleRow : sampleRow.Built ∧ (∀ cell ∈ sampleRow.cells, cell.2.HasText) ∧
    ∃ item, Json.read? (Response.ofRows [sampleRow]).text =
        some (.object [("status", .string "ok"), ("data", .array [item])]) ∧
      sampleRow.ShownAs item := by
  have hbuilt : sampleRow.Built := .set (.set (.set .empty _ _) _ _) _ _
  have htext : ∀ cell ∈ sampleRow.cells, cell.2.HasText := by
    intro cell hcell
    change cell ∈ [("a\nb", Scalar.text "\"\\"), ("zero", .number (-0)),
      ("large", .number 9007199254740992)] at hcell
    simp only [List.mem_cons, List.not_mem_nil, or_false] at hcell
    rcases hcell with rfl | rfl | rfl
    · trivial
    · show (-0 : Float).isFinite = true
      decide
    · show (9007199254740992 : Float).isFinite = true
      decide +kernel
  have hrows : ∀ row ∈ [sampleRow], row.Built := by simpa using hbuilt
  have hcells : ∀ row ∈ [sampleRow], ∀ cell ∈ row.cells, cell.2.HasText := by simpa using htext
  obtain ⟨⟨items, hread, hitems⟩, -⟩ := Response.read?_ofRows hrows hcells
  cases hitems with
  | cons hitem hrest =>
      cases hrest
      exact ⟨hbuilt, htext, _, hread, hitem⟩

end Campus
