import RubyOutline.LogRecord
import RubyOutline.Outline
import RubyOutline.SyntaxGate

/-!
The analysis of a source text: it is parsed, goes through the syntax gate and is
outlined. The parser is not part of this library; an analysis is given one, or
the news that none is installed.
-/

namespace RubyOutline

inductive Grammar where
  | unavailable
  /-- A parser gives the top of a tree, or fails with a message. -/
  | installed (parse : ByteArray → Except String Place)

inductive AnalysisError where
  | grammarUnavailable
  | parserFailed (message : String)
  | rejected (fault : SyntaxFault)
  deriving DecidableEq, Repr

namespace AnalysisError

def message : AnalysisError → String
  | grammarUnavailable =>
    "Could not load the Ruby grammar. Install it with: pip install tree-sitter-ruby"
  | parserFailed message => message
  | rejected fault => fault.message

def log : AnalysisError → List LogRecord
  | rejected fault =>
    [⟨.debug, "ruby_analyzer.parsing", s!"Rejected Ruby source: {fault.message}"⟩]
  | _ => []

end AnalysisError

def Report.log {τ : Type} : Report τ → List LogRecord
  | .classes cs => [⟨.debug, "ruby_analyzer.extract", s!"Analyzed {cs.length} classes"⟩]
  | .topLevel ms =>
    [⟨.debug, "ruby_analyzer.extract",
      s!"No classes found; analyzed {ms.length} top-level methods"⟩]

namespace Grammar

/-- The tree of a source that goes through the syntax gate. -/
def parse (grammar : Grammar) (source : ByteArray) : Except AnalysisError Place :=
  match grammar with
  | unavailable => .error .grammarUnavailable
  | installed parse =>
    match parse source with
    | .error message => .error (.parserFailed message)
    | .ok top =>
      match top.syntaxGate source with
      | .error fault => .error (.rejected fault)
      | .ok () => .ok top

def analyze (grammar : Grammar) (code : String) : Except AnalysisError (Report (Option Nat)) :=
  (grammar.parse code.toUTF8).map fun top => top.report code.toUTF8

end Grammar

def analysisLog : Except AnalysisError (Report (Option Nat)) → List LogRecord
  | .error e => e.log
  | .ok report => report.log

end RubyOutline
