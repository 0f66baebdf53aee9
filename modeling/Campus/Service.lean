import Campus.Fault
import Campus.Query.Run
import Campus.Registry

/-!
# The service

What callers are told. Every failure has one of five codes; whatever is wrong with a query, the
caller learns only that it is invalid. A response is one JSON object, with the data or with the
code and the message of the failure.
-/

namespace Campus

/-- What kind of failure a caller is told of. -/
inductive ServiceCode where
  | queryInvalid
  | resultTooLarge
  | datasetNotFound
  /-- The id or the content of a dataset is refused. -/
  | datasetInvalid
  | internal
  deriving DecidableEq, Repr

namespace ServiceCode

/-- The text of a code. -/
def text : ServiceCode → String
  | .queryInvalid => "CAMPUS_QUERY_INVALID"
  | .resultTooLarge => "CAMPUS_RESULT_TOO_LARGE"
  | .datasetNotFound => "CAMPUS_DATASET_NOT_FOUND"
  | .datasetInvalid => "CAMPUS_DATASET_INVALID"
  | .internal => "CAMPUS_INTERNAL"

/-- Who is to blame for a failure. -/
def blame : ServiceCode → Blame
  | .internal => .program
  | _ => .caller

end ServiceCode

/-- A failure as a caller is told of it. -/
structure ServiceError where
  code : ServiceCode
  message : String
  deriving DecidableEq, Repr

namespace ServiceError

/-- The failure of every query that is rejected. -/
def invalidQuery : ServiceError := ⟨.queryInvalid, Rejection.publicMessage⟩

/-- What a caller is told of a query without an answer. -/
def ofQueryFailure (f : QueryFailure) : ServiceError :=
  match f with
  | .tooLarge _ => ⟨.resultTooLarge, f.message⟩
  | .unavailable _ _ => ⟨.internal, f.message⟩

/-- What a caller is told of a dataset error. -/
def ofDatasetError (e : DatasetError) : ServiceError :=
  match e with
  | .notFound _ => ⟨.datasetNotFound, e.message⟩
  | .invalidId _ | .duplicateId _ | .noValidRecords _ => ⟨.datasetInvalid, e.message⟩
  | .io _ _ => ⟨.internal, e.message⟩

/-- The failure as it is shown. -/
def shown (e : ServiceError) : String := showReport e.code.blame e.code.text e.message

end ServiceError

/-- A response to a caller. -/
inductive Response where
  | success (data : Json)
  | failure (e : ServiceError)

namespace Response

/-- The response to a result that `encode` writes as data. -/
def ofResult {α : Type} (encode : α → Json) : Except ServiceError α → Response
  | .ok data => .success (encode data)
  | .error e => .failure e

/-- The response to the rows of a query. -/
def ofRows (rows : List Row) : Response := .success (.array (rows.map Row.toJson))

/-- The response as JSON. -/
def toJson : Response → Json
  | .success data => .object [("status", .string "ok"), ("data", data)]
  | .failure e => .object
    [("status", .string "error"), ("code", .string e.code.text), ("message", .string e.message)]

/-- The response as the text of a JSON object. -/
def text (r : Response) : String := r.toJson.toText

end Response

end Campus
