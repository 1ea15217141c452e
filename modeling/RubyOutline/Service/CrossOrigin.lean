import RubyOutline.Service.Message

/-!
Requests from other origins. The response to such a request names the origins
that may read it, and a request in advance asks which methods are allowed.
-/

namespace RubyOutline.Service

/-- The method that pages of other origins may use. -/
def allowedMethod : String := "POST"

/-- Whether the configured origins admit all others. -/
def allowsAll (origins : List String) : Bool := origins.contains "*"

def allowsOrigin (origins : List String) (origin : String) : Bool :=
  allowsAll origins || origins.contains origin

/-- The origins that may read a response. -/
def readers? (origins : List String) (origin : String) : Option String :=
  if allowsAll origins then some "*"
  else if allowsOrigin origins origin then some origin
  else none

/-- The response to a request in advance, for a method of a page's choice. A page
that asks for a way into a private network is refused. -/
def preflight (origins : List String) (origin method : String) (privateNetwork : Bool) :
    Response :=
  let failures :=
    (if allowsOrigin origins origin then [] else ["origin"]) ++
      (if method = allowedMethod then [] else ["method"]) ++
      (if privateNetwork then ["private-network"] else [])
  let response :=
    if failures.isEmpty then Response.text 200 "OK"
    else Response.text 400 ("Disallowed CORS " ++ ", ".intercalate failures)
  { response with
    allowOrigin := readers? origins origin
    allowMethods := some allowedMethod }

/-- Answers a request for pages of other origins, everything else being left to
`respond`. -/
def crossOrigin (origins : List String) (request : Request) (respond : Request → Response) :
    Response :=
  match request.header? "origin" with
  | none => respond request
  | some origin =>
    match request.method, request.header? "access-control-request-method" with
    | "OPTIONS", some method =>
      preflight origins origin method
        (request.header? "access-control-request-private-network").isSome
    | _, _ => { respond request with allowOrigin := readers? origins origin }

end RubyOutline.Service
