import MathMarkup.Segment
import MathMarkup.Service.Address
import MathMarkup.Settings
import MathMarkup.Value.Json

/-!
# Web service

A typesetter behind a few addresses: what the service is, whether it runs, the names of its macros,
and the transformation of a text that is sent to it.
-/

namespace MathMarkup

inductive RequestBody where
  | empty
  | unreadable
  | malformed
  | value (value : Value)

def RequestBody.ofText (text : Text) : RequestBody :=
  if text.isEmpty then .empty
  else
    match decode? text with
    | none => .unreadable
    | some text =>
      match Value.ofJson text with
      | .ok json => .value json
      | .error .malformed => .malformed
      | .error .excessive => .unreadable

structure Request where
  method : Text
  address : Text
  body : RequestBody := .empty

inductive Response where
  | document (status : Nat) (value : Value)
  | invalid (complaints : List Complaint)

def Response.invalidStatus : Nat := 422

def Response.bare : Response → Response
  | document status _ => document status .null
  | invalid complaints => invalid complaints

inductive Endpoint where
  | about
  | health
  | transform
  | macros
  deriving DecidableEq, Repr

namespace Endpoint

/-- Where an endpoint is found. A line break at the end of the path does not matter. -/
def ofPath? (path : Text) : Option Endpoint :=
  let line := if path.getLast? = some '\n' then path.dropLast else path
  match String.ofList line with
  | "/" => some about
  | "/health" => some health
  | "/api/v1/transform" => some transform
  | "/api/v1/macros" => some macros
  | _ => none

def method : Endpoint → String
  | transform => "POST"
  | _ => "GET"

end Endpoint

inductive Destination where
  | found (endpoint : Endpoint)
  /-- There is an endpoint at the path without the slashes at its end. -/
  | elsewhere
  | nowhere
  deriving DecidableEq, Repr

def Destination.ofPath (path : Text) : Destination :=
  match Endpoint.ofPath? path with
  | some endpoint => .found endpoint
  | none =>
    let shortened := (path.reverse.dropWhile (· = '/')).reverse
    if (Endpoint.ofPath? shortened).isSome then .elsewhere else .nowhere

/-- What a request is for. -/
def Request.destination (request : Request) : Destination :=
  match Address.path? request.address with
  | some path => .ofPath path
  | none => .nowhere

def longestSource : Nat := 20000

structure TransformRequest where
  source : Text
  /-- Only the segment of the text is markup. -/
  delimited : Bool := false

def readSource (value : Value) : Except Fault Text :=
  match value.toText with
  | .ok source => if source.length ≤ longestSource then .ok source else .error .textTooLong
  | .error fault => .error fault

def textDocument (name : String) (text : Text) : Value := .object [(name.toList, .text text)]

def refusal (status : Nat) (reason : String) : Response :=
  .document status (textDocument "detail" reason.toList)

/-- The request for a transformation that was sent, or the answer to what is no such request: every
complaint about it is told. -/
def TransformRequest.ofBody : RequestBody → Except Response TransformRequest
  | .empty => .error (.invalid [⟨"body", .missing⟩])
  | .unreadable => .error (refusal 400 "There was an error parsing the body")
  | .malformed => .error (.invalid [⟨"body", .notJson⟩])
  | .value .null => .error (.invalid [⟨"body", .missing⟩])
  | .value (.object fields) =>
    let source :=
      match Value.field? "source" fields with
      | some value => readSource value
      | none => .error .missing
    let delimited :=
      match Value.field? "delimited" fields with
      | some value => value.toBool
      | none => .ok false
    match delimited, source with
    | .ok delimited, .ok source => .ok ⟨source, delimited⟩
    | .ok _, .error fault => .error (.invalid [⟨"body.source", fault⟩])
    | .error fault, .ok _ => .error (.invalid [⟨"body.delimited", fault⟩])
    | .error fault, .error fault' =>
      .error (.invalid [⟨"body.delimited", fault⟩, ⟨"body.source", fault'⟩])
  | .value _ => .error (.invalid [⟨"body", .notAnObject⟩])

def Settings.about (settings : Settings) : Value :=
  .object
    [("name".toList, .text settings.appName), ("version".toList, .text settings.appVersion),
      ("docs".toList, .text "/api/docs".toList)]

namespace Typesetter

variable (T : Typesetter)

def macroList : Value :=
  let names := T.registry.names
  .object
    [("count".toList, .integer names.length), ("names".toList, .list (names.map Value.text))]

def answer (request : TransformRequest) : Text :=
  if request.delimited then T.transformSegment request.source else T.transform request.source

/-- The answer of an endpoint to a request by its own method. `application` are the settings that
the application tells about itself, which need not be those it typesets with. -/
def serve (application : Settings) (body : RequestBody) : Endpoint → Response
  | .about => .document 200 application.about
  | .health => .document 200 (textDocument "status" "ok".toList)
  | .macros => .document 200 T.macroList
  | .transform =>
    match TransformRequest.ofBody body with
    | .ok request => .document 200 (textDocument "result" (T.answer request))
    | .error response => response

/-- The answer to a request. Methods are known in any letter case. No document is sent to those who
ask for the head of one. -/
def respond (application : Settings) (request : Request) : Response :=
  let method := String.ofList request.method.upperCased
  let response :=
    match request.destination with
    | .found endpoint =>
      if method = endpoint.method then T.serve application request.body endpoint
      else refusal 405 "Method Not Allowed"
    | .elsewhere => .document 307 .null
    | .nowhere => refusal 404 "Not Found"
  if method = "HEAD" then response.bare else response

end Typesetter

end MathMarkup
