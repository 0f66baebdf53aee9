import Campus.Proofs.Archive.Answers
import Campus.Proofs.Json.Printing
import Campus.Proofs.Json.Rereading
import Campus.Proofs.Scalar.Numbers
import Campus.Proofs.Text.Lines
import Campus.Request

/-!
# Serving line by line

`Engine.serve_framing`: as long as the input is text, each line that is not blank gets one response
line, whatever the line is and whatever the other lines are; the first line that is no text ends the
serving. What makes the lines of the output correspond to those of the input is that a response is
one line: its text has no line feed in it (`Json.printed_print`), and it can be read again
(`Response.Readable`). What is read then is an object with the rows, or with the code and the message
of the failure (`Response.Says`).

Serving changes the engine from one request to the next, but not its catalog, and a response depends
on nothing else (`Engine.response_respond`).
-/

namespace Campus

/-! ### Responses that can be read -/

theorem Scalar.depth_toJson (v : Scalar) : v.toJson.depth = 0 := by
  cases v with
  | text s => rfl
  | number x =>
      rw [toJson, numberToJson]
      split
      · rfl
      · split <;> rfl

theorem Scalar.distinctNames_toJson (v : Scalar) : v.toJson.DistinctNames := by
  cases v with
  | text s => trivial
  | number x =>
      rw [toJson, numberToJson]
      split
      · trivial
      · split <;> trivial

namespace Row

variable {r : Row}

theorem distinctNames_toJson (h : r.names.Nodup) : r.toJson.DistinctNames := by
  refine ⟨?_, Json.distinctNamesMembers_iff.mpr fun member hmember => ?_⟩
  · rw [Assoc.names_map_snd]
    exact h
  · obtain ⟨cell, -, rfl⟩ := List.mem_map.mp hmember
    exact cell.2.distinctNames_toJson

theorem numbersFit_toJson (r : Row) : r.toJson.NumbersFit := by
  refine Json.numbersFitMembers_iff.mpr fun member hmember => ?_
  obtain ⟨cell, -, rfl⟩ := List.mem_map.mp hmember
  exact cell.2.numbersFit_toJson

theorem depth_toJson_le (r : Row) : r.toJson.depth ≤ 1 := by
  rw [toJson, Json.depth]
  refine Nat.succ_le_succ (Json.depthOfMembers_le_iff.mpr fun member hmember => ?_)
  obtain ⟨cell, -, rfl⟩ := List.mem_map.mp hmember
  exact cell.2.depth_toJson.le

end Row

namespace Response

/-- The text of the response can be read. -/
structure Readable (r : Response) : Prop where
  names : r.toJson.DistinctNames
  numbers : r.toJson.NumbersFit
  depth : r.toJson.depth ≤ Json.nestingLimit

theorem readable_failure (e : ServiceError) : (Response.failure e).Readable := by
  refine ⟨?_, ?_, ?_⟩
  · simp [toJson, Json.DistinctNames, Json.DistinctNamesMembers]
  · simp [toJson, Json.NumbersFit, Json.NumbersFitMembers]
  · exact (by decide : 1 ≤ Json.nestingLimit)

theorem readable_ofRows {rows : List Row} (h : ∀ row ∈ rows, row.names.Nodup) :
    (Response.ofRows rows).Readable := by
  have hitems : ∀ item ∈ rows.map Row.toJson, ∃ row ∈ rows, item = row.toJson := by
    intro item hitem
    obtain ⟨row, hrow, rfl⟩ := List.mem_map.mp hitem
    exact ⟨row, hrow, rfl⟩
  refine ⟨?_, ?_, ?_⟩
  · refine ⟨by simp, trivial, Json.distinctNamesItems_iff.mpr fun item hitem => ?_, trivial⟩
    obtain ⟨row, hrow, rfl⟩ := hitems item hitem
    exact row.distinctNames_toJson (h row hrow)
  · refine ⟨trivial, Json.numbersFitItems_iff.mpr fun item hitem => ?_, trivial⟩
    obtain ⟨row, -, rfl⟩ := hitems item hitem
    exact row.numbersFit_toJson
  · have hdepth : Json.depthOfItems (rows.map Row.toJson) ≤ 1 := by
      refine Json.depthOfItems_le_iff.mpr fun item hitem => ?_
      obtain ⟨row, -, rfl⟩ := hitems item hitem
      exact row.depth_toJson_le
    simp only [ofRows, toJson, Json.depth, Json.depthOfMembers, Json.nestingLimit]
    omega

variable {r : Response}

theorem Readable.read?_text (h : r.Readable) : Json.read? r.text = some r.toJson := by
  rw [text, Json.read?, Json.readWithin?_toText h.names h.numbers, if_pos h.depth]

/-- A response is one line. -/
theorem printed_text (r : Response) : Json.Printed r.text.toList := by
  rw [text, Json.toText, String.toList_ofList]
  exact Json.printed_print _

theorem toList_output (responses : List Response) :
    (output responses).toList = responses.flatMap fun r => r.text.toList ++ ['\n'] := by
  rw [output, String.toList_join, List.flatMap_map]
  simp only [line, String.toList_append]
  rfl

theorem not_mem_text_of_lt {c : Char} (hc : c.toNat < 0x20) (r : Response) :
    c ∉ r.text.toList :=
  fun hmem => absurd (r.printed_text c hmem) (Nat.not_le.mpr hc)

/-- Between the line feeds of the output lie the texts of the responses. -/
theorem splitOn_output (responses : List Response) :
    (output responses).toList.splitOn '\n' = responses.map (·.text.toList) ++ [[]] := by
  rw [toList_output]
  induction responses with
  | nil => rfl
  | cons r responses ih =>
      have hline : ∀ c ∈ r.text.toList, (c == '\n') = false := fun c hc =>
        beq_false_of_ne fun heq => not_mem_text_of_lt (by decide) r (heq ▸ hc)
      rw [List.flatMap_cons, List.append_assoc, List.singleton_append, List.splitOn,
        List.splitOnP_append_cons_of_forall_mem hline _ (beq_self_eq_true _), List.map_cons,
        List.cons_append, ← ih, List.splitOn]

theorem carriageReturn_not_mem_output (responses : List Response) :
    '\r' ∉ (output responses).toList := by
  rw [toList_output]
  intro hmem
  obtain ⟨r, -, hr⟩ := List.mem_flatMap.mp hmem
  rcases List.mem_append.mp hr with hr | hr
  · exact not_mem_text_of_lt (by decide) r hr
  · exact absurd (List.mem_singleton.mp hr) (by decide)

end Response

/-! ### What responses say -/

/-- A value in an answer says what a cell holds: it shows it, or is null if the cell holds a number
that has no text. -/
inductive Scalar.SaidAs (v : Scalar) : Json → Prop
  | shown {item : Json} (text : v.HasText) (shown : v.ShownAs item) : SaidAs v item
  | null (none : ¬ v.HasText) : SaidAs v .null

theorem Scalar.saidAs_toJson (v : Scalar) : v.SaidAs v.toJson := by
  by_cases htext : v.HasText
  · exact .shown htext (shownAs_toJson htext)
  · cases v with
    | text s => exact absurd trivial htext
    | number x =>
        have hnull : (number x).toJson = .null := by
          have hfinite : ¬ x.isFinite = true := htext
          rw [toJson, numberToJson]
          cases hn : Number.integer? x with
          | none => rw [if_neg hfinite]
          | some n =>
              refine absurd (Number.isSome_value?_iff.mp ?_) hfinite
              rw [Number.integer?_eq_some_iff.mp hn, Option.isSome_some]
        rw [hnull]
        exact .null htext

/-- A row is said as an object with a member for each cell, in the same order. -/
def Row.SaidAs (r : Row) (item : Json) : Prop :=
  ∃ members, item = .object members ∧
    List.Forall₂ (fun cell member => cell.1 = member.1 ∧ cell.2.SaidAs member.2) r.cells members

theorem Row.saidAs_toJson (r : Row) : r.SaidAs r.toJson := by
  refine ⟨_, rfl, ?_⟩
  rw [List.forall₂_map_right_iff, List.forall₂_same]
  exact fun cell _ => ⟨rfl, cell.2.saidAs_toJson⟩

/-- A response says what has become of a request: it has the rows of the answer, or the code and the
message of the failure. -/
inductive Response.Says : Except ServiceError (List Row) → Json → Prop
  | rows {rows : List Row} {items : List Json} (said : List.Forall₂ Row.SaidAs rows items) :
      Says (.ok rows) (.object [("status", .string "ok"), ("data", .array items)])
  | failure (e : ServiceError) :
      Says (.error e) (.object [("status", .string "error"), ("code", .string e.code.text),
        ("message", .string e.message)])

theorem Response.says_toJson_ofRows (rows : List Row) : Says (.ok rows) (ofRows rows).toJson := by
  refine .rows ?_
  rw [List.forall₂_map_right_iff, List.forall₂_same]
  exact fun row _ => row.saidAs_toJson

/-! ### Answering lines -/

/-- Whether a line is more than blanks. -/
def Text.isInked (text : String) : Bool := text.toList.any fun c => !isBlank c

/-- The query on a line, if it holds one. -/
def Request.query? (text : String) : Option Json :=
  Json.read? (String.ofList (Text.trim text.toList))

namespace Engine

variable {e e' : Engine} {source : Source} {stamps : Nat → Stamp}

/-- What becomes of a line, as if it were the only one: the query on it is asked. -/
def answer (e : Engine) (source : Source) (text : String) : Except ServiceError (List Row) :=
  match Request.query? text with
  | none => .error .invalidQuery
  | some query => (e.ask source default query).result

/-- The response to a line, as if it were the only one. -/
def reply (e : Engine) (source : Source) (text : String) : Response :=
  match e.answer source text with
  | .ok rows => .ofRows rows
  | .error failure => .failure failure

/-- A response depends on the catalog of the engine only. -/
theorem response_respond (h : e'.catalog = e.catalog) (stamp : Stamp) (text : String) :
    (e'.respond source stamp (Request.ofText text)).response = e.reply source text := by
  unfold Request.ofText reply answer Request.query?
  cases Json.read? (String.ofList (Text.trim text.toList)) with
  | none => rfl
  | some query =>
      have hresult : (e'.ask source stamp query).result = (e.ask source default query).result := by
        simp only [ask, conclude, outcome, h]
      cases hask : (e.ask source default query).result <;>
        simp only [respond, Asked.response, hresult, hask]

theorem catalog_respond (e : Engine) (stamp : Stamp) (request : Request) :
    (e.respond source stamp request).engine.catalog = e.catalog := by
  cases request <;> rfl

/-- Requests are answered one after the other up to the first line that is no text. -/
theorem serveFrom_append {rest : List (Option Request)}
    (hrest : ∀ request ∈ rest.head?, request = none) (h : e'.catalog = e.catalog) (first : Nat)
    (texts : List String) :
    (e'.serveFrom first source stamps
        (texts.map (fun text => some (Request.ofText text)) ++ rest)).responses =
      texts.map (e.reply source) ∧
    (e'.serveFrom first source stamps
        (texts.map (fun text => some (Request.ofText text)) ++ rest)).complete = rest.isEmpty := by
  induction texts generalizing e' first with
  | nil =>
      cases rest with
      | nil => exact ⟨rfl, rfl⟩
      | cons request rest =>
          obtain rfl := hrest request rfl
          exact ⟨rfl, rfl⟩
  | cons text texts ih =>
      obtain ⟨hresponses, hcomplete⟩ := ih
        ((catalog_respond e' (stamps first) (Request.ofText text)).trans h) (first + 1)
      rw [List.map_cons, List.cons_append, serveFrom]
      refine ⟨?_, hcomplete⟩
      dsimp only
      rw [hresponses, response_respond h, List.map_cons]

end Engine

/-! ### Lines and requests -/

namespace Request

theorem isInked_eq (text : String) : Text.isInked text = !Text.allBlank text.toList := by
  rw [Text.isInked, Text.allBlank, List.not_all_eq_any_not]

/-- The request on a line is a matter of what the line is decoded to. -/
def ofDecoded? : Option String → Option (Option Request)
  | none => some none
  | some text => if Text.isInked text then some (some (.ofText text)) else none

theorem ofLine?_eq (line : List UInt8) : ofLine? line = ofDecoded? (Text.decode? line) := by
  unfold ofLine? ofDecoded?
  cases Text.decode? line with
  | none => rfl
  | some text =>
      dsimp only
      rw [isInked_eq]
      cases Text.allBlank text.toList <;> rfl

theorem ofLines_eq (input : List UInt8) :
    ofLines input =
      ((Text.linesOfParts (input.splitOn Text.lineFeed)).map Text.decode?).filterMap ofDecoded? := by
  rw [ofLines, Text.lines_eq, List.filterMap_map]
  congr 1
  funext line
  exact ofLine?_eq line

theorem filterMap_ofDecoded? (texts : List String) :
    (texts.map some).filterMap ofDecoded? =
      (texts.filter Text.isInked).map fun text => some (.ofText text) := by
  induction texts with
  | nil => rfl
  | cons text texts ih =>
      rw [List.map_cons, List.filterMap_cons, ih, ofDecoded?]
      by_cases hinked : Text.isInked text = true
      · rw [if_pos hinked, List.filter_cons_of_pos hinked, List.map_cons]
      · rw [if_neg hinked, List.filter_cons_of_neg hinked]

end Request

namespace Engine

variable {e : Engine} {source : Source} {stamps : Nat → Stamp}

theorem readable_reply (e : Engine) (source : Source) (text : String) :
    (e.reply source text).Readable := by
  unfold reply
  split
  · next rows hanswer =>
    unfold answer at hanswer
    split at hanswer
    · cases hanswer
    · obtain ⟨q, a, -, hrun, rfl⟩ := exists_run_of_ask hanswer
      obtain ⟨kind, batches, -, -, hshown⟩ := Query.exists_batches_of_run hrun
      refine Response.readable_ofRows fun row hrow => ?_
      rw [hshown] at hrow
      exact Query.nodup_names_of_mem_rows hrow
  · exact Response.readable_failure _

/-- The response to a line can be read, and says what has become of the line. -/
theorem exists_says_reply (e : Engine) (source : Source) (text : String) :
    ∃ said, Json.read? (e.reply source text).text = some said ∧
      Response.Says (e.answer source text) said := by
  refine ⟨_, (readable_reply e source text).read?_text, ?_⟩
  unfold reply
  cases e.answer source text with
  | ok rows => exact Response.says_toJson_ofRows rows
  | error failure => exact .failure failure

/-- A line that holds no query that can be read is refused. -/
theorem answer_of_invalid {text : String}
    (h : ∀ query, Request.query? text = some query → e.isValid query = false) :
    e.answer source text = .error .invalidQuery := by
  unfold answer
  cases hquery : Request.query? text with
  | none => rfl
  | some query =>
      have hvalid := h query hquery
      unfold isValid Query.isValid at hvalid
      cases hread : Query.ofJson e.catalog query with
      | ok q => simp [hread] at hvalid
      | error rejection =>
          simp only [ask, conclude, outcome, hread]
          rfl

/-- What serving comes to, up to the first line that is no text. -/
theorem serve_eq {input : List UInt8} {texts : List String} {rest : List (Option String)}
    (hrest : ∀ text ∈ rest.head?, text = none)
    (h : (Text.linesOfParts (input.splitOn Text.lineFeed)).map Text.decode? =
      texts.map some ++ rest) :
    (e.serve source stamps input).responses =
        (texts.filter Text.isInked).map (e.reply source) ∧
      (e.serve source stamps input).complete = rest.isEmpty := by
  have hhead : ∀ request ∈ (rest.filterMap Request.ofDecoded?).head?, request = none := by
    cases rest with
    | nil => simp
    | cons text rest =>
        obtain rfl := hrest text rfl
        simp [Request.ofDecoded?]
  have hempty : (rest.filterMap Request.ofDecoded?).isEmpty = rest.isEmpty := by
    cases rest with
    | nil => rfl
    | cons text rest =>
        obtain rfl := hrest text rfl
        rfl
  rw [serve, Request.ofLines_eq, h, List.filterMap_append, Request.filterMap_ofDecoded?, ← hempty]
  exact serveFrom_append hhead rfl 0 _

/-- Serving answers exactly the lines that are not blank, each by one line and as if it were the
only one, up to the first line that is no text. The line is the text of a JSON object, which says
what has become of the query; and it is the same for all lines that hold no valid query. -/
theorem serve_framing (e : Engine) (source : Source) (stamps : Nat → Stamp) (input : List UInt8) :
    let decoded := (Text.linesOfParts (input.splitOn Text.lineFeed)).map Text.decode?
    let served := e.serve source stamps input
    let output := (Response.output served.responses).toList
    (∀ texts : List String, decoded = texts.map some →
      served.complete = true ∧ served.count = (texts.filter Text.isInked).length ∧
        served.responses = (texts.filter Text.isInked).map (e.reply source)) ∧
    (∀ (texts : List String) (rest : List (Option String)),
      decoded = texts.map some ++ none :: rest →
      served.complete = false ∧
        served.responses = (texts.filter Text.isInked).map (e.reply source)) ∧
    output.splitOn '\n' = served.responses.map (·.text.toList) ++ [[]] ∧ '\r' ∉ output ∧
    (∀ text, ∃ said, Json.read? (e.reply source text).text = some said ∧
      Response.Says (e.answer source text) said) ∧
    ∀ text, (∀ query, Request.query? text = some query → e.isValid query = false) →
      e.answer source text = .error .invalidQuery ∧
        e.reply source text = .failure .invalidQuery ∧
        Json.read? (e.reply source text).text = some (.object [("status", .string "error"),
          ("code", .string "CAMPUS_QUERY_INVALID"), ("message", .string "Invalid query")]) := by
  refine ⟨fun texts htexts => ?_, fun texts rest hrest => ?_, Response.splitOn_output _,
    Response.carriageReturn_not_mem_output _, exists_says_reply e source,
    fun text hinvalid => ?_⟩
  · rw [← List.append_nil (texts.map some)] at htexts
    obtain ⟨hresponses, hcomplete⟩ := serve_eq (e := e) (by simp) htexts
    refine ⟨hcomplete, ?_, hresponses⟩
    rw [Served.count, hresponses, List.length_map]
  · obtain ⟨hresponses, hcomplete⟩ := serve_eq (e := e) (by simp) hrest
    exact ⟨hcomplete, hresponses⟩
  · have hanswer : e.answer source text = .error .invalidQuery := answer_of_invalid hinvalid
    have hreply : e.reply source text = .failure .invalidQuery := by
      rw [reply, hanswer]
    refine ⟨hanswer, hreply, ?_⟩
    rw [hreply]
    exact (Response.readable_failure _).read?_text

/-- A line that asks for the departments of a dataset. -/
def departmentLine : String :=
  "\x7b\"WHERE\":\x7b\x7d,\"OPTIONS\":\x7b\"COLUMNS\":[\"c_dept\"]\x7d\x7d"

/-- A line that is no JSON text, a blank one, a query, an object that is no query, and bytes that are
no text. -/
def sampleInput : List UInt8 :=
  [120, 13, 10, 32, 10] ++ (departmentLine.toList.map fun c => .ofNat c.toNat) ++
    [10, 123, 125, 10, 255, 10]

/-- A line is refused, the query is answered with its row, another line is refused, and then the
serving ends. -/
theorem serve_sampleInput :
    let e := Engine.ofSource sampleMemory.source
    let served := e.serve sampleMemory.source (fun _ => default) sampleInput
    served.complete = false ∧
      served.responses = [.failure .invalidQuery, e.reply sampleMemory.source departmentLine,
        .failure .invalidQuery] ∧
      ∃ rows items, e.answer sampleMemory.source departmentLine = .ok rows ∧
        rows.map Row.names = [["c_dept"]] ∧
        Json.read? (e.reply sampleMemory.source departmentLine).text =
          some (.object [("status", .string "ok"), ("data", .array items)]) ∧
        List.Forall₂ Row.SaidAs rows items := by
  intro e served
  have hdecoded : (Text.linesOfParts (sampleInput.splitOn Text.lineFeed)).map Text.decode? =
      ["x", " ", departmentLine, "\x7b\x7d"].map some ++ [none] := by
    decide +kernel
  obtain ⟨-, hserved, -, -, hsays, hinvalid⟩ := serve_framing e sampleMemory.source
    (fun _ => default) sampleInput
  obtain ⟨hcomplete, hresponses⟩ := hserved _ _ hdecoded
  have hrefused : ∀ text ∈ ["x", "\x7b\x7d"],
      e.reply sampleMemory.source text = .failure .invalidQuery := by
    intro text htext
    have hall : (Request.query? text).all (fun query => !e.isValid query) = true := by
      revert text
      decide +kernel
    refine (hinvalid text fun query hquery => ?_).2.1
    rw [hquery] at hall
    simpa using hall
  have hinked : ["x", " ", departmentLine, "\x7b\x7d"].filter Text.isInked =
      ["x", departmentLine, "\x7b\x7d"] := by
    decide +kernel
  refine ⟨hcomplete, ?_, ?_⟩
  · rw [hresponses, hinked, List.map_cons, hrefused "x" (by simp), List.map_cons, List.map_cons,
      hrefused "\x7b\x7d" (by simp)]
    rfl
  · have hnames : (e.answer sampleMemory.source departmentLine).toOption.map (·.map Row.names) =
        some [["c_dept"]] := by
      decide +kernel
    obtain ⟨said, hread, hsaid⟩ := hsays departmentLine
    cases hanswer : e.answer sampleMemory.source departmentLine with
    | error failure =>
        rw [hanswer] at hnames
        cases hnames
    | ok rows =>
        rw [hanswer] at hnames hsaid
        cases hsaid with
        | rows hrows => exact ⟨rows, _, rfl, Option.some.inj hnames, hread, hrows⟩

end Engine

end Campus
