import CallLang.Builtin.Apply
import CallLang.Builtin.Basic
import CallLang.CommandLine
import CallLang.Console
import CallLang.Continuation
import CallLang.Directory
import CallLang.Double.Basic
import CallLang.Double.Decimal
import CallLang.Eval
import CallLang.Expr.Basic
import CallLang.Expr.Dump
import CallLang.Expr.Reader
import CallLang.Fault.Complaint
import CallLang.Fault.Mistake
import CallLang.Fault.Stop
import CallLang.Form
import CallLang.Message.Basic
import CallLang.Message.Template
import CallLang.Number
import CallLang.Program
import CallLang.Reporter
import CallLang.Store.Action
import CallLang.Store.Basic
import CallLang.Table
import CallLang.Text.Address
import CallLang.Text.Blank
import CallLang.Text.Digits
import CallLang.Text.Lines
import CallLang.Text.Quoted
import CallLang.Text.Style
import CallLang.Text.Unprintable
import CallLang.Text.Utf8
import CallLang.Token
import CallLang.Value.Display
import CallLang.Value.Equality
import CallLang.Workspace
import CallLang.Main
import CallLang.Proofs.Grammar
import CallLang.Proofs.Lexing
import CallLang.Proofs.Parsing
import CallLang.Proofs.Scopes
import CallLang.Proofs.Locality
import CallLang.Proofs.Steps
import CallLang.Proofs.Correspondence
import CallLang.Proofs.Simulation
import CallLang.Process
import CallLang.Proofs.Plain
import CallLang.Proofs.Workspaces
import CallLang.Proofs.Isolation
import CallLang.Proofs.References
import CallLang.Proofs.Repetition
import CallLang.Proofs.Cutoff
import CallLang.Proofs.Invariants
import CallLang.Proofs.Homes
import CallLang.Proofs.Observations
import CallLang.Proofs.Splitting
import CallLang.Proofs.Currying
import CallLang.Proofs.Doubles
import CallLang.Proofs.NumberLine
import CallLang.Proofs.Refusals
import CallLang.Proofs.Limits
import CallLang.Proofs.Breakdowns
import CallLang.Proofs.Executions
import CallLang.Proofs.HostErrors
import CallLang.Proofs.Truncation
import CallLang.Proofs.Passages
import CallLang.Proofs.Positions
import CallLang.Proofs.Continuations
import CallLang.Proofs.Blocks
import CallLang.Proofs.Recovery
import CallLang.Proofs.Nodes
import CallLang.Proofs.Spans
import CallLang.Proofs.Origins
import CallLang.Proofs.Blame
import CallLang.Proofs.Reports
import CallLang.Proofs.Locations
import CallLang.Proofs.Joining
import CallLang.Proofs.Sequences
import CallLang.Proofs.Transcripts
import CallLang.Proofs.FrontEnds
import CallLang.Proofs.Layout
import CallLang.Proofs.Vocabularies
import CallLang.Proofs.Translation
import CallLang.Proofs.Unmentioned
import CallLang.Proofs.Printing
import CallLang.Proofs.TranslatedRuns
import CallLang.Proofs.Renaming
import CallLang.Proofs.Quotes
import CallLang.Proofs.Shortest
import CallLang.Proofs.Rounding
import CallLang.Proofs.Decimals
import CallLang.Proofs.NumberTexts
import CallLang.Proofs.Equality
import CallLang.Proofs.Notation
import CallLang.Proofs.Comparisons
import CallLang.Proofs.Division
import CallLang.Proofs.Elements
import CallLang.Proofs.Registrations
import CallLang.Proofs.Bookkeeping
import CallLang.Proofs.Warnings
import CallLang.Proofs.Histories
import CallLang.Proofs.Addresses
import CallLang.Proofs.Diagnoses
import CallLang.Proofs.Endings
import CallLang.Proofs.Escapes
import CallLang.Proofs.CleanRuns
import CallLang.Proofs.Renditions
import CallLang.Proofs.Decoration
import CallLang.Proofs.CleanSessions
import CallLang.Proofs.Unpainted
import CallLang.Proofs.Calls
import CallLang.Proofs.Summation
import CallLang.Proofs.Powers
import CallLang.Proofs.Quotations
import CallLang.Proofs.Dumps
import CallLang.Proofs.Heaps
import CallLang.Proofs.Suffixes
import CallLang.Proofs.Descent
