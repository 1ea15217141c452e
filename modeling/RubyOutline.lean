import RubyOutline.Text.Utf8
import RubyOutline.Text.Numeral
import RubyOutline.Text.Capital
import RubyOutline.Text.Quoted
import RubyOutline.Tree.Walk
import RubyOutline.Tree.Listing
import RubyOutline.Analysis
import RubyOutline.Settings
import RubyOutline.Text.Encoding
import RubyOutline.Json.Printer
import RubyOutline.Json.Reader
import RubyOutline.Service.Handler
import RubyOutline.Main
import RubyOutline.Proofs.Traversal
import RubyOutline.Proofs.ErrorSearch
import RubyOutline.Proofs.Gate
import RubyOutline.Proofs.Scan
import RubyOutline.Proofs.Census
import RubyOutline.Proofs.Nesting
import RubyOutline.Proofs.Origin
import RubyOutline.Proofs.Composition
import RubyOutline.Proofs.Keywords
import RubyOutline.Proofs.Totality
import RubyOutline.Proofs.Relabel
import RubyOutline.Proofs.Location
import RubyOutline.Proofs.Padding
import RubyOutline.Proofs.Relocation
import RubyOutline.Proofs.Tokens
import RubyOutline.Proofs.AnalyzeCommand
import RubyOutline.Proofs.Utf8.Cut
import RubyOutline.Proofs.SpanText
import RubyOutline.Proofs.Utf8.WellFormed
import RubyOutline.Proofs.ConditionText
import RubyOutline.Proofs.SourceFiles
import RubyOutline.Proofs.Flags
import RubyOutline.Proofs.Overrides
import RubyOutline.Proofs.ServeCommand
import RubyOutline.Proofs.ConstantPaths
import RubyOutline.Proofs.Parameters
import RubyOutline.Proofs.CompoundAssignment
import RubyOutline.Proofs.Splitting
import RubyOutline.Proofs.FaultText
import RubyOutline.Proofs.Numerals
import RubyOutline.Proofs.Origins
import RubyOutline.Proofs.Environment
