import RubyOutline.Analysis
import RubyOutline.Json.Printer
import RubyOutline.ReportDocument
import RubyOutline.Service.Body
import RubyOutline.Service.CrossOrigin

/-!
The service: it says that it is running and analyses code.
-/

namespace RubyOutline.Service

open Text (WideText)

def documentResponse (status : Nat) (members : List (String × Json String)) : Response :=
  .json status (Json.render .compact (.object members))

def detailResponse (status : Nat) (detail : String) : Response :=
  documentResponse status [("detail", .string detail)]

def failureResponse (status : Nat) (message : String) : Response :=
  documentResponse status [("success", .bool false), ("error", .string message)]

def reportResponse (report : Report (Option Nat)) : Response :=
  documentResponse 200 [("success", .bool true), ("result", report.document)]

def healthResponse : Response :=
  documentResponse 200 [("message", .string "Ruby Analyzer API is running.")]

/-- A broken source is the caller's fault, any other failure the service's. One
that does not explain itself is named by its kind. -/
def errorResponse : AnalysisError → Response
  | .rejected fault => failureResponse 400 fault.message
  | .parserFailed "" => failureResponse 500 "RuntimeError"
  | e => failureResponse 500 e.message

/-- The response to a request for the analysis of some code. -/
def analysisResponse (grammar : Grammar) (code : WideText) : Response :=
  match Text.narrow code with
  | .error e => failureResponse 500 e.message
  | .ok code =>
    match grammar.analyze code with
    | .ok report => reportResponse report
    | .error e => errorResponse e

/-- The response to a request whose body has been received. -/
def bodyResponse (grammar : Grammar) (request : Request) : Response :=
  match readCode (request.header? "content-type") request.body with
  | .ok code => analysisResponse grammar code
  | .error .unreadable => detailResponse 400 "There was an error parsing the body"
  | .error (.invalid complaint) => failureResponse 400 (describe [complaint])

inductive Endpoint where
  | health
  | analysis
  deriving DecidableEq, Repr

/-- The other way of ending a path: without slashes if it has some at its end, with
one if it has none. -/
def otherEnding (path : String) : String :=
  let characters := path.toList.reverse
  if characters.head? = some '/' then
    String.ofList (characters.dropWhile (· = '/')).reverse
  else path ++ "/"

/-- Whether a path is some other, a line feed at its end apart. -/
def isPath (path known : String) : Bool := path = known || path = known ++ "\n"

def endpoint? (path : String) : Option Endpoint :=
  if isPath path "/" then some .health
  else if isPath path "/analyze" then some .analysis
  else none

def Endpoint.method : Endpoint → String
  | health => "GET"
  | analysis => "POST"

/-- The response to a request for a path that leads nowhere. If it would lead
somewhere with its other ending, the caller is sent there. -/
def strayResponse (path : String) : Response :=
  if (endpoint? (otherEnding path)).isSome then Response.redirect
  else detailResponse 404 "Not Found"

/-- The response to a request from the service's own pages. -/
def route (grammar : Grammar) (request : Request) : Response :=
  match endpoint? request.path with
  | none => strayResponse request.path
  | some endpoint =>
    if request.method ≠ endpoint.method then detailResponse 405 "Method Not Allowed"
    else match endpoint with
      | .health => healthResponse
      | .analysis => bodyResponse grammar request

def respond (grammar : Grammar) (origins : List String) (request : Request) : Response :=
  crossOrigin origins request (route grammar)

end RubyOutline.Service
