import RubyOutline.Json.Reader
import RubyOutline.Service.Complaint
import RubyOutline.Text.Blank
import RubyOutline.Text.Encoding

/-!
The body of an analysis request: a JSON object whose member `code` is a text.
-/

namespace RubyOutline.Service

open Text (WideText)

inductive BodyError where
  /-- The body is no text, or holds more than is ever read. -/
  | unreadable
  | invalid (complaint : Complaint)
  deriving DecidableEq, Repr

/-- The part of a text before a character, blanks taken off its ends. -/
def headPart (separator : Char) (s : String) : List Char :=
  Text.trimBy Text.isBlank (s.toList.takeWhile (· ≠ separator))

/-- Whether a content type is JSON, or a format of applications that is written
as JSON. -/
def isJsonType (contentType : String) : Bool :=
  let mediaType := (headPart ';' contentType).map Char.toLower
  match Text.splitAtChar '/' mediaType with
  | [main, sub] =>
    main = "application".toList && (sub = "json".toList || "+json".toList.isSuffixOf sub)
  | _ => false

def notAnObject : Complaint :=
  ⟨[.name "body"], some "Input should be a valid dictionary or object to extract fields from"⟩

/-- The code that a document asks to analyse. -/
def codeOf : Json WideText → Except Complaint WideText
  | .object members =>
    match Json.member? members (Text.wide "code") with
    | none => .error ⟨[.name "body", .name "code"], some "Field required"⟩
    | some (.string code) => .ok code
    | some _ => .error ⟨[.name "body", .name "code"], some "Input should be a valid string"⟩
  | _ => .error notAnObject

def bodyLimits : Json.Limits := ⟨some 4300, some 960⟩

/-- Reads a document from a body that claims to be JSON. -/
def documentOf (body : List UInt8) : Except BodyError (Json WideText) :=
  match Text.decodeDetected body with
  | none => .error .unreadable
  | some text =>
    match Json.read bodyLimits text with
    | .ok document => .ok document
    | .error (.malformed rest) =>
      .error (.invalid ⟨[.name "body", .index (Json.offset text rest)], some "JSON decode error"⟩)
    | .error _ => .error .unreadable

/-- The code in a body. Without a body there is nothing to read, and a body of
another type is not looked into. -/
def readCode (contentType : Option String) (body : List UInt8) : Except BodyError WideText :=
  if body.isEmpty then .error (.invalid ⟨[.name "body"], some "Field required"⟩)
  else if contentType.any isJsonType then do
    let document ← documentOf body
    match codeOf document with
    | .ok code => .ok code
    | .error complaint => .error (.invalid complaint)
  else .error (.invalid notAnObject)

end RubyOutline.Service
