import RubyOutline.Text.Digit
import RubyOutline.Text.Quoted

/-!
Command lines and the steps they stand for. An interface lists its flags and says
what its operand takes; a command line is first sorted into flags and operands,
and then read from left to right. The steps are in the order in which they take
effect, complaints among them, so that whatever comes before a complaint can
still happen.

A flag may be cut short as long as no other flag begins the same way, and its
value may be joined to it by an equals sign. Behind a short flag more short flags
may follow at once. After `--` everything is an operand.

These are the rules of `argparse` up to release 3.11.8. Later releases differ where `--` is
joined to a flag as its value, and where text follows a short flag that takes none.
-/

namespace RubyOutline.CommandLine

inductive FlagRole where
  | help
  | switch
  /-- Takes a value. -/
  | value
  deriving DecidableEq, Repr

structure Flag where
  /-- All spellings, each with its dashes. -/
  names : List String
  role : FlagRole
  deriving DecidableEq, Repr

/-- How a flag is referred to in a complaint. -/
def Flag.display (flag : Flag) : String := "/".intercalate flag.names

inductive Arity where
  | one
  /-- An operand and everything after it. -/
  | rest
  deriving DecidableEq, Repr

inductive Complaint where
  | ambiguous (given : String) (candidates : List String)
  | valueExpected (flag : Flag)
  | valueIgnored (flag : Flag) (value : String)
  | invalidValue (flag : Flag) (what value : String)
  | invalidChoice (operand : String) (given : String) (choices : List String)
  | required (operand : String)
  | unrecognized (arguments : List String)
  deriving DecidableEq, Repr

def Complaint.message : Complaint → String
  | ambiguous given candidates =>
    s!"ambiguous option: {given} could match " ++ ", ".intercalate candidates
  | valueExpected flag => s!"argument {flag.display}: expected one argument"
  | valueIgnored flag value =>
    s!"argument {flag.display}: ignored explicit argument {Text.quoted value}"
  | invalidValue flag what value =>
    s!"argument {flag.display}: invalid {what} value: {Text.quoted value}"
  | invalidChoice operand given choices =>
    s!"argument {operand}: invalid choice: {Text.quoted given} (choose from " ++
      ", ".intercalate (choices.map Text.quoted) ++ ")"
  | required operand => s!"the following arguments are required: {operand}"
  | unrecognized arguments => "unrecognized arguments: " ++ " ".intercalate arguments

/-! ### Sorting arguments -/

/-- A value that is joined to its flag. -/
structure Attached where
  /-- Whether the flag is in its short spelling, one dash and one letter. -/
  short : Bool
  value : List Char
  deriving DecidableEq, Repr

inductive Token where
  | operand
  /-- The first `--`. -/
  | dashes
  | flag (flag : Flag) (attached : Option Attached)
  /-- It looks like a flag, but there is none of that name. -/
  | unknown
  deriving DecidableEq, Repr

def isDigit (c : Char) : Bool := (Text.digitValue? c).isSome

/-- Digits up to the end of a text, at least one; a line end may follow. -/
def isDigits (cs : List Char) : Bool :=
  let rest := cs.dropWhile isDigit
  cs.head?.any isDigit && (rest.isEmpty || rest = ['\n'])

/-- A minus and a number, whole or with a fraction. -/
def isNegativeNumber : List Char → Bool
  | '-' :: cs =>
    isDigits cs || match cs.dropWhile isDigit with
      | '.' :: fraction => isDigits fraction
      | _ => false
  | _ => false

def isLong : List Char → Bool
  | '-' :: '-' :: _ => true
  | _ => false

def splitEquals (cs : List Char) : List Char × Option Attached :=
  match cs.dropWhile (· ≠ '=') with
  | _ :: value => (cs.takeWhile (· ≠ '='), some ⟨!isLong cs, value⟩)
  | [] => (cs, none)

/-- All spellings of some flags, each with its flag. -/
def spellings (flags : List Flag) : List (String × Flag) :=
  flags.flatMap fun flag => flag.names.map fun name => (name, flag)

def flag? (flags : List Flag) (name : String) : Option Flag :=
  ((spellings flags).find? (·.1 == name)).map (·.2)

/-- The flags that an argument may stand for when it is no whole spelling. A long
flag may be cut short; behind a short flag more may follow at once. -/
def candidates (flags : List Flag) (cs : List Char) : List (String × Flag × Option Attached) :=
  match cs with
  | '-' :: '-' :: _ =>
    let (beginning, attached) := splitEquals cs
    ((spellings flags).filter fun (name, _) => beginning.isPrefixOf name.toList).map
      fun (name, flag) => (name, flag, attached)
  | '-' :: c :: value =>
    ((spellings flags).filter fun (name, _) => name.toList = ['-', c]).map
      fun (name, flag) => (name, flag, some ⟨true, value⟩)
  | _ => []

/-- Sorts an argument that begins with a dash and has more to it. -/
def sortDashed (flags : List Flag) (arg : String) : Except Complaint Token :=
  let cs := arg.toList
  match flag? flags arg with
  | some flag => .ok (.flag flag none)
  | none =>
    let (name, attached) := splitEquals cs
    match attached.bind fun _ => flag? flags (String.ofList name) with
    | some flag => .ok (.flag flag attached)
    | none =>
      match candidates flags cs with
      | [(_, flag, attached)] => .ok (.flag flag attached)
      | [] =>
        if isNegativeNumber cs || cs.contains ' ' then .ok .operand else .ok .unknown
      | several => .error (.ambiguous arg (several.map (·.1)))

/-- Sorts an argument before the first `--`. -/
def sortArgument (flags : List Flag) (arg : String) : Except Complaint Token :=
  match arg.toList with
  | '-' :: _ :: _ => sortDashed flags arg
  | _ => .ok .operand

/-- Sorts the arguments of a command line. -/
def sortArguments (flags : List Flag) : List String → Except Complaint (List (String × Token))
  | [] => .ok []
  | arg :: args =>
    if arg = "--" then .ok ((arg, .dashes) :: args.map fun arg => (arg, .operand))
    else do
      let token ← sortArgument flags arg
      return (arg, token) :: (← sortArguments flags args)

/-! ### Reading from left to right -/

inductive Step where
  | help
  | switch (flag : Flag)
  /-- A flag with its value, `none` where the flag is there without one. -/
  | value (flag : Flag) (value : Option String)
  /-- The operand, with all that it takes. -/
  | operand (arguments : List String)
  /-- An argument that nothing takes. -/
  | leftover (argument : String)
  | complain (complaint : Complaint)
  deriving DecidableEq, Repr

/-- What a flag without a value does. -/
def Flag.act (flag : Flag) : Step :=
  match flag.role with
  | .help => .help
  | _ => .switch flag

/-- A run of short flags, none of which takes a value: one of them and the letters
of the others. Nothing of a run takes effect if any of it is wrong. -/
def shortRun (flags : List Flag) (flag : Flag) : List Char → Except Complaint (List Step)
  | [] => .ok [flag.act]
  | c :: cs =>
    match flag? flags (String.ofList ['-', c]) with
    | none => .error (.valueIgnored flag (String.ofList (c :: cs)))
    | some next => (shortRun flags next cs).map (flag.act :: ·)

/-- The value that is joined to a flag. Two dashes do not count as a value. -/
def joinedValue (value : List Char) : Option String :=
  if value = ['-', '-'] then none else some (String.ofList value)

/-- A flag with a joined value. What follows a short flag that takes none is read
as a run, whether an equals sign stands between or not. -/
def attachedSteps (flags : List Flag) (flag : Flag) (attached : Attached) : List Step :=
  if flag.role = .value then [.value flag (joinedValue attached.value)]
  else if attached.short && !attached.value.isEmpty then
    match shortRun flags flag attached.value with
    | .ok steps => steps
    | .error complaint => [.complain complaint]
  else [.complain (.valueIgnored flag (String.ofList attached.value))]

/-- What is expected while arguments are read. -/
inductive Expectation where
  /-- The operand, if it is still due. -/
  | operand (due : Option Arity)
  /-- The operand has just been taken; a `--` right after it belongs to it. -/
  | pastOperand
  | value (flag : Flag) (due : Option Arity)
  deriving DecidableEq, Repr

/-- The operand that is still due. -/
def Expectation.due : Expectation → Option Arity
  | operand due => due
  | pastOperand => none
  | value _ due => due

/-- Reads sorted arguments. -/
def readTokens (flags : List Flag) : Expectation → List (String × Token) → List Step
  | .value flag _, [] => [.complain (.valueExpected flag)]
  | _, [] => []
  | .value flag due, (arg, token) :: tokens =>
    if token = .operand then .value flag (some arg) :: readTokens flags (.operand due) tokens
    else [.complain (.valueExpected flag)]
  | .pastOperand, (_, .dashes) :: tokens => readTokens flags (.operand none) tokens
  | expected, (arg, .operand) :: tokens =>
    match expected.due with
    | some .rest => [.operand (arg :: tokens.map (·.1))]
    | some .one => .operand [arg] :: readTokens flags .pastOperand tokens
    | none => .leftover arg :: readTokens flags (.operand none) tokens
  | expected, (arg, .dashes) :: tokens =>
    if tokens.isEmpty then [.leftover arg]
    else match expected.due with
      | some .rest => [.operand (arg :: tokens.map (·.1))]
      | some .one => readTokens flags (.operand (some .one)) tokens
      | none => .leftover arg :: readTokens flags (.operand none) tokens
  | expected, (arg, .unknown) :: tokens =>
    .leftover arg :: readTokens flags (.operand expected.due) tokens
  | expected, (_, .flag flag (some attached)) :: tokens =>
    attachedSteps flags flag attached ++ readTokens flags (.operand expected.due) tokens
  | expected, (_, .flag flag none) :: tokens =>
    if flag.role = .value then readTokens flags (.value flag expected.due) tokens
    else flag.act :: readTokens flags (.operand expected.due) tokens

/-- The steps that a command line stands for. -/
def steps (flags : List Flag) (operand : Option Arity) (args : List String) : List Step :=
  match sortArguments flags args with
  | .error complaint => [.complain complaint]
  | .ok tokens => readTokens flags (.operand operand) tokens

end RubyOutline.CommandLine
