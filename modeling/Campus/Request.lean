import Campus.Engine
import Campus.Json.Reader
import Campus.Text.Lines

/-!
# Requests

A request is a JSON text, trimmed of blanks. Served input holds one on each line that is not
blank, and each gets one response line. A line that is no JSON text is answered like an invalid
query; a line that is no text at all ends the serving.
-/

namespace Campus

/-- A request: a query, or a text that is none. -/
inductive Request where
  | malformed
  | query (q : Json)

namespace Request

/-- The request that a text holds. -/
def ofText (text : String) : Request :=
  match Json.read? (String.ofList (Text.trim text.toList)) with
  | some q => .query q
  | none => .malformed

/-- The request that the whole of some input holds, if the input is text. -/
def ofInput? (input : List UInt8) : Option Request := (Text.decode? input).map ofText

/-- The request on a line: `none` for a blank line, and `some none` for one that is no text. -/
def ofLine? (line : List UInt8) : Option (Option Request) :=
  match Text.decode? line with
  | none => some none
  | some text => if Text.allBlank text.toList then none else some (some (ofText text))

/-- The requests on the lines of some input; `none` stands for a line that is no text. -/
def ofLines (input : List UInt8) : List (Option Request) := (Text.lines input).filterMap ofLine?

end Request

/-- What is left of answering a request. -/
structure Responded where
  response : Response
  engine : Engine
  log : List LogLine

/-- What is left of serving. -/
structure Served where
  responses : List Response
  engine : Engine
  log : List LogLine
  /-- Whether all requests have been answered. -/
  complete : Bool

/-- How many requests have been answered. -/
def Served.count (s : Served) : Nat := s.responses.length

/-- A response as an output line. -/
def Response.line (r : Response) : String := r.text ++ "\n"

/-- The responses as output. -/
def Response.output (responses : List Response) : String :=
  String.join (responses.map Response.line)

/-- The response to a query that has been asked. -/
def Asked.response (a : Asked) : Response :=
  match a.result with
  | .ok rows => .ofRows rows
  | .error failure => .failure failure

namespace Engine

/-- Answers a request. -/
def respond (e : Engine) (source : Source) (stamp : Stamp) : Request → Responded
  | .malformed => ⟨.failure .invalidQuery, e, []⟩
  | .query q =>
    let asked := e.ask source stamp q
    ⟨asked.response, asked.engine, asked.log⟩

/-- Answers requests one after the other, up to a line that is no text. The request of number `n`
has the stamp `stamps n`, and the first is of number `first`. -/
def serveFrom (first : Nat) (e : Engine) (source : Source) (stamps : Nat → Stamp) :
    List (Option Request) → Served
  | [] => ⟨[], e, [], true⟩
  | none :: _ => ⟨[], e, [], false⟩
  | some request :: requests =>
    let responded := e.respond source (stamps first) request
    let served := serveFrom (first + 1) responded.engine source stamps requests
    { served with
      responses := responded.response :: served.responses
      log := responded.log ++ served.log }

/-- Serves some input. -/
def serve (e : Engine) (source : Source) (stamps : Nat → Stamp) (input : List UInt8) : Served :=
  e.serveFrom 0 source stamps (Request.ofLines input)

end Engine

end Campus
