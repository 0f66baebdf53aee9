import Campus.Json.Written

/-!
# What a list of tokens builds

`Written.tokens` spells a tree from end to end. Building a tree from its own tokens gives the tree
back: an array or object that is begun waits on the stack while its content is built, and takes it
in when the content is complete.

* `Written.ofTokens?_tokens` — a tree is built from its tokens.
-/

namespace Campus.Json.Written

mutual

/-- The tokens of a tree. -/
def tokens : Written → List Token
  | .null => [.null]
  | .bool b => [.bool b]
  | .number n => [.number n]
  | .string glyphs => [.string glyphs]
  | .array items => .openArray :: tokensOfItems items
  | .object members => .openObject :: tokensOfMembers members

/-- The tokens of the rest of an array from an item on. -/
def tokensOfItems : List Written → List Token
  | [] => [.closeArray]
  | [item] => item.tokens ++ [.closeArray]
  | item :: next :: items => item.tokens ++ .comma :: tokensOfItems (next :: items)

/-- The tokens of the rest of an object from a member on. -/
def tokensOfMembers : List (List Glyph × Written) → List Token
  | [] => [.closeObject]
  | [(name, value)] => .string name :: .colon :: (value.tokens ++ [.closeObject])
  | (name, value) :: next :: members =>
    .string name :: .colon :: (value.tokens ++ .comma :: tokensOfMembers (next :: members))

end

namespace Builder

variable {b b' b'' : Builder} {ts ts' : List Token} {frames outer : List Frame}

/-- Taking the tokens one after the other leads from the one reader to the other. -/
def Takes (b : Builder) (ts : List Token) (b' : Builder) : Prop := ts.foldlM step? b = some b'

theorem Takes.nil (b : Builder) : b.Takes [] b := rfl

theorem Takes.cons {token : Token} (h : b.step? token = some b') (h' : b'.Takes ts b'') :
    b.Takes (token :: ts) b'' := by
  unfold Takes
  rw [List.foldlM_cons, h]
  exact h'

theorem Takes.append (h : b.Takes ts b') (h' : b'.Takes ts' b'') : b.Takes (ts ++ ts') b'' := by
  unfold Takes at h ⊢
  rw [List.foldlM_append, h]
  exact h'

/-- A value that is complete is followed by one more token. -/
theorem Takes.concat {token : Token} (h : b.Takes ts b') (h' : b'.step? token = some b'') :
    b.Takes (ts ++ [token]) b'' :=
  h.append (.cons h' (.nil _))

/-- The first item of an array is begun like any value. -/
theorem Takes.firstItem {done : List Written} {token : Token} (h : token ≠ .closeArray)
    (htakes : Takes ⟨.array done :: outer, .value⟩ (token :: ts) b') :
    Takes ⟨.array done :: outer, .firstItem⟩ (token :: ts) b' := by
  have hstep : step? ⟨.array done :: outer, .firstItem⟩ token =
      step? ⟨.array done :: outer, .value⟩ token := by
    cases token <;> first | exact absurd rfl h | rfl
  unfold Takes at htakes ⊢
  rw [List.foldlM_cons] at htakes ⊢
  rwa [hstep]

end Builder

theorem exists_tokens_eq_cons (w : Written) : ∃ token ts, w.tokens = token :: ts ∧
    token ≠ .closeArray := by
  cases w <;> simp [tokens]

/-- The tokens of a non-empty array begin an item. -/
theorem exists_tokensOfItems_eq_cons (item : Written) (items : List Written) :
    ∃ token ts, tokensOfItems (item :: items) = token :: ts ∧ token ≠ .closeArray := by
  obtain ⟨token, ts, hts, hne⟩ := exists_tokens_eq_cons item
  cases items <;> simp [tokensOfItems, hts, hne]

open Builder

mutual

theorem takes_tokens (frames : List Frame) :
    ∀ w : Written, Takes ⟨frames, .value⟩ w.tokens ⟨frames, .after w⟩
  | .null => .cons rfl (.nil _)
  | .bool _ => .cons rfl (.nil _)
  | .number _ => .cons rfl (.nil _)
  | .string _ => .cons rfl (.nil _)
  | .array [] => .cons rfl (.cons rfl (.nil _))
  | .array (item :: items) => by
      have hitems := takes_tokensOfItems frames [] (item :: items) (by simp)
      -- The first item stands where the array could also be closed.
      obtain ⟨token, ts, hts, hne⟩ := exists_tokensOfItems_eq_cons item items
      rw [tokens, hts]
      rw [hts] at hitems
      exact .cons rfl (hitems.firstItem hne)
  | .object [] => .cons rfl (.cons rfl (.nil _))
  | .object (member :: members) =>
      .cons rfl (takes_tokensOfMembers frames [] true (member :: members) (by simp))

/-- The items of an array are taken on top of those before them. -/
theorem takes_tokensOfItems (outer : List Frame) (done : List Written) :
    ∀ items : List Written, items ≠ [] →
      Takes ⟨.array done :: outer, .value⟩ (tokensOfItems items)
        ⟨outer, .after (.array (done.reverse ++ items))⟩
  | [], hne => absurd rfl hne
  | [item], _ => by
      refine (takes_tokens (.array done :: outer) item).concat ?_
      simp [step?, after?]
  | item :: next :: items, _ => by
      have hrest := takes_tokensOfItems outer (item :: done) (next :: items) (by simp)
      rw [List.reverse_cons, List.append_assoc] at hrest
      exact (takes_tokens (.array done :: outer) item).append (.cons rfl hrest)

/-- The members of an object are taken on top of those before them. -/
theorem takes_tokensOfMembers (outer : List Frame) (done : List (List Glyph × Written))
    (first : Bool) : ∀ members : List (List Glyph × Written), members ≠ [] →
      Takes ⟨outer, .name done first⟩ (tokensOfMembers members)
        ⟨outer, .after (.object (done.reverse ++ members))⟩
  | [], hne => absurd rfl hne
  | [(name, value)], _ => by
      refine .cons rfl (.cons rfl ((takes_tokens (.member done name :: outer) value).concat ?_))
      simp [step?, after?]
  | (name, value) :: next :: members, _ => by
      have hrest := takes_tokensOfMembers outer ((name, value) :: done) false (next :: members)
        (by simp)
      rw [List.reverse_cons, List.append_assoc] at hrest
      exact .cons rfl (.cons rfl
        ((takes_tokens (.member done name :: outer) value).append (.cons rfl hrest)))

end

/-- A tree is built from its tokens. -/
theorem ofTokens?_tokens (w : Written) : ofTokens? w.tokens = some w := by
  have htakes : w.tokens.foldlM step? ⟨[], .value⟩ = some ⟨[], .after w⟩ := takes_tokens [] w
  simp [ofTokens?, htakes, finish?]

end Campus.Json.Written
