import RubyOutline.Json.Token

/-!
Reading JSON. The reader goes through the tokens once and keeps the containers
that are open on a stack. What it waits for is its state, so the first token
that does not fit is the error, wherever later tokens may be broken.
-/

namespace RubyOutline.Json

open Text (WideText)

/-- An open container, its contents so far in reverse. -/
inductive Frame where
  | array (before : List (Json WideText))
  /-- The value of the named member is being read. -/
  | object (before : List (WideText × Json WideText)) (name : WideText)

inductive State where
  | value (stack : List Frame)
  /-- The first item of an array, or its end. -/
  | firstItem (stack : List Frame)
  /-- The first name in an object, or its end. -/
  | firstName (stack : List Frame)
  | name (stack : List Frame) (before : List (WideText × Json WideText))
  | colon (stack : List Frame) (before : List (WideText × Json WideText)) (name : WideText)
  /-- A value is complete; what goes on after it is decided by the stack. -/
  | complete (stack : List Frame) (value : Json WideText)

/-- What a reader puts up with; a limit that is absent is none. -/
structure Limits where
  /-- Digits of an integer. -/
  digits : Option Nat
  /-- Containers inside one another. -/
  depth : Option Nat
  deriving DecidableEq, Repr

def Limits.none : Limits := ⟨.none, .none⟩

inductive ReadError where
  /-- It does not fit the grammar where the given rest of it begins. -/
  | malformed (rest : WideText)
  | tooManyDigits
  | tooDeep

/-- The error of a text in quotes that a token begins with. -/
def Token.quoteError (token : Token) : QuoteFault → ReadError
  | .unterminated => .malformed token.rest
  | .before rest => .malformed rest

/-- Opens a container, unless too many are open. -/
def openContainer (limits : Limits) (stack : List Frame) (next : State) :
    Except ReadError State :=
  if limits.depth.any (· ≤ stack.length) then .error .tooDeep else .ok next

/-- Takes a token where a value is due. -/
def stepValue (limits : Limits) (stack : List Frame) (token : Token) : Except ReadError State :=
  match token.lexeme with
  | .openArray => openContainer limits stack (.firstItem stack)
  | .openObject => openContainer limits stack (.firstName stack)
  | .quoted text => .ok (.complete stack (.string text))
  | .brokenQuote fault => .error (token.quoteError fault)
  | .atom value => .ok (.complete stack value)
  | .integer value digits =>
    if limits.digits.any (· < digits) then .error .tooManyDigits
    else .ok (.complete stack (.int value))
  | _ => .error (.malformed token.rest)

/-- Takes a token where the name of a member is due. -/
def stepName (stack : List Frame) (before : List (WideText × Json WideText)) (token : Token) :
    Except ReadError State :=
  match token.lexeme with
  | .quoted text => .ok (.colon stack before text)
  | .brokenQuote fault => .error (token.quoteError fault)
  | _ => .error (.malformed token.rest)

/-- Takes a token after a value. -/
def stepComplete (stack : List Frame) (value : Json WideText) (token : Token) :
    Except ReadError State :=
  match stack, token.lexeme with
  | .array before :: stack, .comma => .ok (.value (.array (value :: before) :: stack))
  | .array before :: stack, .closeArray =>
    .ok (.complete stack (.array (value :: before).reverse))
  | .object before name :: stack, .comma => .ok (.name stack ((name, value) :: before))
  | .object before name :: stack, .closeObject =>
    .ok (.complete stack (.object ((name, value) :: before).reverse))
  | _, _ => .error (.malformed token.rest)

def step (limits : Limits) (state : State) (token : Token) : Except ReadError State :=
  match state with
  | .value stack => stepValue limits stack token
  | .firstItem stack =>
    match token.lexeme with
    | .closeArray => .ok (.complete stack (.array []))
    | _ => stepValue limits (.array [] :: stack) token
  | .firstName stack =>
    match token.lexeme with
    | .closeObject => .ok (.complete stack (.object []))
    | _ => stepName stack [] token
  | .name stack before => stepName stack before token
  | .colon stack before name =>
    match token.lexeme with
    | .colon => .ok (.value (.object before name :: stack))
    | _ => .error (.malformed token.rest)
  | .complete stack value => stepComplete stack value token

/-- Takes tokens up to the end of the document. -/
def readTokens (limits : Limits) : State → List Token → Except ReadError (Json WideText)
  | _, [] => .error (.malformed [])
  | .complete [] value, ⟨.finish, _⟩ :: _ => .ok value
  | state, token :: tokens =>
    match step limits state token with
    | .ok next => readTokens limits next tokens
    | .error e => .error e

def read (limits : Limits) (t : WideText) : Except ReadError (Json WideText) :=
  readTokens limits (.value []) (tokens t)

/-- How far into a document its rest begins. -/
def offset (document rest : WideText) : Nat := document.length - rest.length

end RubyOutline.Json
