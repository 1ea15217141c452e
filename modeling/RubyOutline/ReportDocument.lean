import RubyOutline.Json.Basic
import RubyOutline.Report

/-!
Reports as JSON documents.
-/

namespace RubyOutline

/-- A line, or nothing where it is not known. -/
def lineDocument : Option Nat → Json String
  | none => .null
  | some line => .int line

def Mention.document (m : Mention (Option Nat)) : Json String :=
  .object [("name", .string m.name), ("line_number", lineDocument m.line)]

def Condition.document (c : Condition (Option Nat)) : Json String :=
  .object [("condition", .string c.text), ("line_number", lineDocument c.line)]

def MethodOutline.document (m : MethodOutline (Option Nat)) : Json String :=
  .object
    [("name", .string m.name),
      ("arguments", .array (m.arguments.map .string)),
      ("line_number", lineDocument m.line),
      ("instance_variables", .array (m.instanceVariables.map Mention.document)),
      ("local_variables", .array (m.localVariables.map Mention.document)),
      ("method_calls", .array (m.calls.map Mention.document)),
      ("conditionals", .array (m.conditions.map Condition.document))]

def ClassOutline.document (c : ClassOutline (Option Nat)) : Json String :=
  .object
    [("class_name", .string c.name),
      ("inherits_from", match c.superclass with
        | none => .null
        | some name => .string name),
      ("line_number", lineDocument c.line),
      ("methods", .array (c.methods.map MethodOutline.document))]

def Report.document : Report (Option Nat) → Json String
  | .classes cs => .object [("classes", .array (cs.map ClassOutline.document))]
  | .topLevel ms =>
    .object [("top_level", .object [("methods", .array (ms.map MethodOutline.document))])]

end RubyOutline
