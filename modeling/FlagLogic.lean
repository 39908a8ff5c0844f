import FlagLogic.Cli
import FlagLogic.Cli.Expression
import FlagLogic.Cli.Outcome
import FlagLogic.Cli.Usage
import FlagLogic.Cli.Words
import FlagLogic.Config
import FlagLogic.Config.Coercion
import FlagLogic.Config.Layer
import FlagLogic.Config.Load
import FlagLogic.Config.Validation
import FlagLogic.Config.Variables
import FlagLogic.Diagnostic
import FlagLogic.Error
import FlagLogic.Eval
import FlagLogic.Eval.Environment
import FlagLogic.Formula
import FlagLogic.Formula.Fold
import FlagLogic.Formula.FoldOrder
import FlagLogic.Formula.Walk
import FlagLogic.Log
import FlagLogic.Log.Clock
import FlagLogic.Main
import FlagLogic.Number.Binary64
import FlagLogic.Parse
import FlagLogic.Report
import FlagLogic.Surroundings
import FlagLogic.Surroundings.VariableFile
import FlagLogic.Text.Blank
import FlagLogic.Text.Case
import FlagLogic.Text.CaseTable
import FlagLogic.Text.Pieces
import FlagLogic.Text.Printable
import FlagLogic.Text.Quoted
import FlagLogic.Token
import FlagLogic.Token.Lexer
import FlagLogic.Trace
import FlagLogic.Value
import FlagLogic.Value.Json
import FlagLogic.Value.Yaml
import FlagLogic.Proofs.Text.Words
import FlagLogic.Proofs.Text.Spelling
import FlagLogic.Proofs.Token.Nesting
import FlagLogic.Proofs.Token.Keywords
import FlagLogic.Proofs.Token.Lumps
import FlagLogic.Proofs.Token.Scanning
import FlagLogic.Proofs.Token.Names
import FlagLogic.Proofs.Token.Parentheses
import FlagLogic.Proofs.Token.Marks
import FlagLogic.Proofs.Token.Specification
import FlagLogic.Proofs.Token.Reading
import FlagLogic.Proofs.Token.Spans
import FlagLogic.Proofs.Token.Positions
import FlagLogic.Proofs.Token.Layout
import FlagLogic.Proofs.Token.Matching
import FlagLogic.Proofs.Formula.Whole
import FlagLogic.Proofs.Formula.Arrangement
import FlagLogic.Proofs.Formula.Calls
import FlagLogic.Proofs.Formula.Folding
import FlagLogic.Proofs.Formula.Postorder
import FlagLogic.Proofs.Formula.Heights
import FlagLogic.Proofs.Formula.Conservation
import FlagLogic.Proofs.Formula.CanonicalText
import FlagLogic.Proofs.Parse.Acceptance
import FlagLogic.Proofs.Parse.Grammar
import FlagLogic.Proofs.Parse.Adjacency
import FlagLogic.Proofs.Parse.RoundTrip
import FlagLogic.Proofs.Parse.Layout
import FlagLogic.Proofs.Parse.Thresholds
import FlagLogic.Proofs.Parse.Composition
import FlagLogic.Proofs.Eval.Course
import FlagLogic.Proofs.Eval.Agreement
import FlagLogic.Proofs.Eval.Safety
import FlagLogic.Proofs.Parse.Faults
import FlagLogic.Proofs.Parse.Parentheses
import FlagLogic.Proofs.Parse.Carets
import FlagLogic.Proofs.Value.Maps
import FlagLogic.Proofs.Config.Layers
import FlagLogic.Proofs.Config.Loading
import FlagLogic.Proofs.Config.Sources
import FlagLogic.Proofs.Eval.Updates
import FlagLogic.Proofs.Cli.Commands
import FlagLogic.Proofs.Cli.Assignments
import FlagLogic.Proofs.Formula.Records
import FlagLogic.Proofs.Eval.LookupOrder
import FlagLogic.Proofs.Eval.Events
import FlagLogic.Proofs.Parse.Diagnoses
