import SolidityInterface.CommandLine.Arguments
import SolidityInterface.CommandLine.Run
import SolidityInterface.Declaration.Basic
import SolidityInterface.Declaration.Grammar
import SolidityInterface.Declaration.Reader
import SolidityInterface.Declaration.TypeName
import SolidityInterface.Distinct
import SolidityInterface.Glob.Expand
import SolidityInterface.Glob.Pattern
import SolidityInterface.Host.Basic
import SolidityInterface.Host.FileTree
import SolidityInterface.Interface.Assembly
import SolidityInterface.Interface.Document
import SolidityInterface.Interface.Import
import SolidityInterface.Interface.Placement
import SolidityInterface.Json.Basic
import SolidityInterface.Json.Reader
import SolidityInterface.Lookup
import SolidityInterface.Main
import SolidityInterface.Number.Binary
import SolidityInterface.Number.Floating
import SolidityInterface.Number.Shortest
import SolidityInterface.Path
import SolidityInterface.Projection.Outline
import SolidityInterface.Projection.Scope
import SolidityInterface.Projection.Signature
import SolidityInterface.Projection.Stub
import SolidityInterface.Report
import SolidityInterface.Run.Cache
import SolidityInterface.Run.Schedule
import SolidityInterface.Run.Session
import SolidityInterface.Run.Waiting
import SolidityInterface.Settings
import SolidityInterface.Source.License
import SolidityInterface.Source.Record
import SolidityInterface.Table
import SolidityInterface.Text.Blank
import SolidityInterface.Text.Letter
import SolidityInterface.Text.Newline
import SolidityInterface.Text.Numeral
import SolidityInterface.Text.Printable
import SolidityInterface.Text.Quoted
import SolidityInterface.Text.Ranges
import SolidityInterface.Text.Split
import SolidityInterface.Token.Basic
import SolidityInterface.Token.Scan
import SolidityInterface.Token.Word
import SolidityInterface.Proofs.Run.Change
import SolidityInterface.Proofs.Run.Waiting
import SolidityInterface.Proofs.Run.Effect
import SolidityInterface.Proofs.Run.Deadlock
import SolidityInterface.Proofs.Run.Plan
import SolidityInterface.Proofs.Run.Faithful
import SolidityInterface.Proofs.Run.Steady
import SolidityInterface.Proofs.Run.Counting
import SolidityInterface.Proofs.Run.Closure
import SolidityInterface.Proofs.Run.Determinism
import SolidityInterface.Proofs.Token.Inline
import SolidityInterface.Proofs.Token.Slices
import SolidityInterface.Proofs.Declaration.Parsed
import SolidityInterface.Proofs.Declaration.Sound
import SolidityInterface.Proofs.Declaration.Spelled
import SolidityInterface.Proofs.Declaration.WellFormed
import SolidityInterface.Proofs.Interface.License
import SolidityInterface.Proofs.Interface.RoundTrip
import SolidityInterface.Proofs.Interface.Placement
import SolidityInterface.Proofs.Run.Imports
import SolidityInterface.Proofs.Run.Names
import SolidityInterface.Proofs.Run.Overwriting
import SolidityInterface.Proofs.Run.Sparing
import SolidityInterface.Proofs.Run.Dependence
import SolidityInterface.Proofs.Run.History
import SolidityInterface.Proofs.Run.Driving
import SolidityInterface.Proofs.Run.Failing
import SolidityInterface.Proofs.Run.Loading
import SolidityInterface.Proofs.Run.Places
import SolidityInterface.Proofs.Token.Dividers
import SolidityInterface.Proofs.Token.Symbols
import SolidityInterface.Proofs.Token.Comments
import SolidityInterface.Proofs.Token.Halting
import SolidityInterface.Proofs.Declaration.Agreement
import SolidityInterface.Proofs.Declaration.Locality
import SolidityInterface.Proofs.Declaration.Bodies
import SolidityInterface.Proofs.Declaration.Bounds
import SolidityInterface.Proofs.Declaration.Loops
import SolidityInterface.Proofs.Declaration.Refusals
import SolidityInterface.Proofs.Projection.Pruning
import SolidityInterface.Proofs.Token.Spaced
import SolidityInterface.Proofs.Projection.Blocking
import SolidityInterface.Proofs.Projection.Traces
import SolidityInterface.Proofs.Projection.RawOnly
import SolidityInterface.Proofs.Projection.Namesakes
import SolidityInterface.Proofs.Projection.Locations
import SolidityInterface.Proofs.Projection.Accessors
import SolidityInterface.Proofs.Token.Seamless
import SolidityInterface.Proofs.Declaration.Nesting
import SolidityInterface.Proofs.Declaration.TypeSyntax
import SolidityInterface.Proofs.Declaration.TypeText
import SolidityInterface.Proofs.Declaration.StateVariables
import SolidityInterface.Proofs.Declaration.Pairs
import SolidityInterface.Proofs.Declaration.Skipping
import SolidityInterface.Proofs.Declaration.Concluding
import SolidityInterface.Proofs.Declaration.Recovery
import SolidityInterface.Proofs.Interface.Relative
import SolidityInterface.Proofs.Interface.Batching
import SolidityInterface.Proofs.Run.Searching
