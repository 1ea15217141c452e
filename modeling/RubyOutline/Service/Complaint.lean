/-!
Complaints about the body of a request. A complaint says where in the request it
lies; that the place is in the body goes without saying.
-/

namespace RubyOutline.Service

inductive PathStep where
  | name (text : String)
  | index (position : Int)
  deriving DecidableEq, Repr

def PathStep.text : PathStep → String
  | name text => text
  | index position => toString position

structure Complaint where
  path : List PathStep
  /-- What is wrong, if that is known. -/
  message : Option String
  deriving DecidableEq, Repr

/-- The way to a value, without the step into the body. -/
def Complaint.place (c : Complaint) : String :=
  ".".intercalate ((c.path.filter (· ≠ .name "body")).map PathStep.text)

def Complaint.text (c : Complaint) : String :=
  let message := c.message.getD "invalid value"
  if c.place.isEmpty then message else s!"{c.place}: {message}"

/-- Complaints in one message, which is never left without an explanation. -/
def describe (complaints : List Complaint) : String :=
  let text := "; ".intercalate (complaints.map Complaint.text)
  "Invalid request: " ++ if text.isEmpty then "malformed body" else text

end RubyOutline.Service
