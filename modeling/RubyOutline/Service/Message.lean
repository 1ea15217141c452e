/-!
Requests and responses, as far as the service looks at them or sets them.
-/

namespace RubyOutline.Service

structure Request where
  method : String
  /-- Path and query. -/
  target : String
  headers : List (String × String)
  body : List UInt8

/-- The first header of a name, in whatever case it is written. -/
def Request.header? (request : Request) (name : String) : Option String :=
  (request.headers.find? fun (key, _) => key.toLower == name).map (·.2)

def Request.path (request : Request) : String :=
  String.ofList (request.target.toList.takeWhile (· ≠ '?'))

structure Response where
  status : Nat
  /-- What the body is, if there is one. -/
  contentType : Option String
  allowOrigin : Option String
  allowMethods : Option String
  body : String
  deriving DecidableEq, Repr

namespace Response

def json (status : Nat) (body : String) : Response :=
  ⟨status, some "application/json", none, none, body⟩

def text (status : Nat) (body : String) : Response :=
  ⟨status, some "text/plain; charset=utf-8", none, none, body⟩

/-- Asks the caller to send the same request to another address. -/
def redirect : Response := ⟨307, none, none, none, ""⟩

def headers (r : Response) : List (String × String) :=
  (r.allowMethods.map fun v => ("access-control-allow-methods", v)).toList ++
    (r.allowOrigin.map fun v => ("access-control-allow-origin", v)).toList ++
    (r.contentType.map fun v => ("content-type", v)).toList

end Response

end RubyOutline.Service
